import RainFloat.Reference.Congruence
import RainFloat.Reference.Parse

/-!
# Canonical — equal results are the same bytes

A value has many representations, one for every zero that its coefficient ends in.  The search of
`pack` tries its exponents in increasing order and leaves a candidate only for one that reaches
farther, so it ends at the smallest exponent the value has.

* `Chosen`: what the loop knows about the exponents it has tried;
* `meets_nearestWithin_least`: the exponent found is the smallest one for the value found;
* `results_canonical`: every Float the reference makes is the one of its value with the most digits.
-/

namespace RainFloat
namespace Reference

open Foundation Dec

/-! ## The search again -/

/-- An exponent of the search, moved into the range. -/
def within (lo hi f : ℤ) : ℤ :=
  max lo (min f hi)

theorem within_mem {lo hi : ℤ} (hle : lo ≤ hi) (f : ℤ) :
    lo ≤ within lo hi f ∧ within lo hi f ≤ hi := by
  unfold within
  omega

theorem within_mono {lo hi f g : ℤ} (h : f ≤ g) : within lo hi f ≤ within lo hi g := by
  unfold within
  omega

/-- Below an exponent in range lies one that is tried: the exponent itself, or the end of the
window. -/
theorem within_min_le {lo f : ℤ} (hi last : ℤ) (hf : lo ≤ f) : within lo hi (min f last) ≤ f := by
  unfold within
  omega

theorem le_within_min {lo hi f : ℤ} (last : ℤ) (hf : lo ≤ f) (hf' : f ≤ hi) :
    within lo hi (min f last) = f ∨ last ≤ within lo hi (min f last) := by
  unfold within
  omega

/-- The accumulator of the loop covers the exponents tried.  If it is not zero any more, it has one
of them, and at the smaller ones everything stays behind it. -/
structure Chosen (x : Dec) (lo hi : ℤ) (done : List ℤ) (best : Dec) : Prop where
  searched : Searched x lo hi best
  covers : ∀ f ∈ done, Covers x lo hi best f
  origin : best = zero ∨ ∃ g ∈ done, best.e = within lo hi g
  ahead : best = zero ∨ ∀ f ∈ done, within lo hi f < best.e →
    ∀ z ∈ radixGrid 10 int224Min int224Max (within lo hi f), z ∈ Set.uIcc 0 x.val →
      |z| < |best.val|

theorem chosen_nil (x : Dec) (lo hi : ℤ) : Chosen x lo hi [] zero :=
  ⟨searched_zero x lo hi, by simp, Or.inl rfl, Or.inl rfl⟩

/-- A turn of the loop keeps the best so far or moves ahead of it. -/
theorem meets_tryExponent_moves {x : Dec} {lo hi : ℤ} (hle : lo ≤ hi) (best : Dec) (f : ℤ) :
    Meets (fun _ => True) (tryExponent x lo hi best f) fun r =>
      r = best ∨ |best.val| < |r.val| ∧ r.e = within lo hi f := by
  refine (meets_clamp hle).bind_eq ?_
  refine Meets.bind_last ?_
  intro c
  refine (meets_cmpValue (Or.inl trivial)).bind_eq ?_
  rw [Meets.pure_iff, val_abs, val_abs]
  split
  · rename_i hgt
    exact Or.inr ⟨compare_gt_iff_gt.1 hgt, rfl⟩
  · exact Or.inl rfl

/-- One more exponent, no smaller than those before. -/
theorem Chosen.step {x : Dec} {lo hi : ℤ} {done : List ℤ} {best : Dec} (hle : lo ≤ hi)
    (h : Chosen x lo hi done best) {f : ℤ} (hf : ∀ g ∈ done, g ≤ f) :
    Meets (fun _ => True) (tryExponent x lo hi best f) (Chosen x lo hi (done ++ [f])) := by
  have hspec := meets_tryExponent (T := fun _ => True) (f := f) hle h.searched (Or.inl trivial)
  refine (hspec.and (meets_tryExponent_moves hle best f)).mono ?_
  rintro r ⟨⟨hr, hge, hcover⟩, hmoves⟩
  have hcovers : ∀ g ∈ done ++ [f], Covers x lo hi r g := by
    intro g hg
    rcases List.mem_append.1 hg with hg | hg
    · intro z hz hzx
      exact (h.covers g hg z hz hzx).trans hge
    · rw [List.mem_singleton.1 hg]
      exact hcover
  -- The best so far stays, or the candidate of the exponent just tried replaces it.
  rcases hmoves with rfl | ⟨hlt, he⟩
  · refine ⟨hr, hcovers, h.origin.imp_right ?_, ?_⟩
    · rintro ⟨g, hg, he⟩
      exact ⟨g, List.mem_append_left _ hg, he⟩
    · rcases h.origin with hzero | ⟨g, hg, he⟩
      · exact Or.inl hzero
      · refine h.ahead.imp_right ?_
        intro hahead g' hg' hlt
        rcases List.mem_append.1 hg' with hg' | hg'
        · exact hahead g' hg' hlt
        · -- The exponent just tried is not smaller.
          rw [List.mem_singleton.1 hg', he] at hlt
          exact absurd hlt (within_mono (hf g hg)).not_gt
  · refine ⟨hr, hcovers, Or.inr ⟨f, by simp, he⟩, Or.inr ?_⟩
    intro g hg hge' z hz hzx
    rcases List.mem_append.1 hg with hg | hg
    · exact (h.covers g hg z hz hzx).trans_lt hlt
    · rw [List.mem_singleton.1 hg, he] at hge'
      exact absurd hge' (lt_irrefl _)

/-- The exponents around the top digit. -/
def window (x : Dec) : List ℤ :=
  rangeInclusive (x.e + digits x.c - 70) (x.e + digits x.c - 66)

theorem mem_window {x : Dec} {f : ℤ} (h : x.e + digits x.c - 70 ≤ f)
    (h' : f ≤ x.e + digits x.c - 66) : f ∈ window x :=
  mem_rangeInclusive ⟨h, h'⟩

theorem window_pairwise (x : Dec) : (window x).Pairwise (· ≤ ·) := by
  rw [window, rangeInclusive, List.pairwise_map]
  refine List.pairwise_lt_range.imp ?_
  intro i j hij
  omega

/-- The exponents of a list in increasing order are tried one after the other. -/
theorem meets_window {x : Dec} {lo hi : ℤ} (hle : lo ≤ hi) {l : List ℤ}
    (hl : l.Pairwise (· ≤ ·)) :
    Meets (fun _ => True) (l.foldlM (tryExponent x lo hi) zero) (Chosen x lo hi l) := by
  -- The invariant of the loop; what was tried is sorted as long as the whole list is.
  have hstep : ∀ (done : List ℤ) (f : ℤ) (best : Dec),
      (done.Pairwise (· ≤ ·) → Chosen x lo hi done best) →
        Meets (fun _ => True) (tryExponent x lo hi best f) fun r =>
          (done ++ [f]).Pairwise (· ≤ ·) → Chosen x lo hi (done ++ [f]) r := by
    intro done f best hbest
    by_cases hsorted : (done ++ [f]).Pairwise (· ≤ ·)
    · rw [List.pairwise_append] at hsorted
      have hf : ∀ g ∈ done, g ≤ f := fun g hg => hsorted.2.2 g hg f (List.mem_singleton_self f)
      exact ((hbest hsorted.1).step hle hf).mono fun _ hr _ => hr
    · exact (meets_tryExponent_moves hle best f).mono fun _ _ h => absurd h hsorted
  have hloop := Meets.foldlM _ hstep l [] zero fun _ => chosen_nil x lo hi
  exact hloop.mono fun _ hbest => hbest hl

/-! ## What the window leaves -/

section Window

variable {x : Dec} {lo hi : ℤ} {best : Dec}

/-- Nothing in range reaches farther than the best of the window. -/
theorem Chosen.dominates (h : Chosen x lo hi (window x) best) (hx : x.c ≠ 0) {f : ℤ}
    (hf : lo ≤ f) (hf' : f ≤ hi) {z : ℚ} (hz : z ∈ radixGrid 10 int224Min int224Max f)
    (hzx : z ∈ Set.uIcc 0 x.val) : |z| ≤ |best.val| := by
  rcases exists_turning hx with ⟨t, ht, ht', hfull, hsat⟩
  rcases dominated_by_turning (by norm_num) int224Min_neg int224Max_pos hfull hsat hf hf' hz hzx
    with ⟨g, hg, z', hz', hzx', hle⟩
  refine hle.trans ?_
  rcases hg with rfl | rfl
  · exact h.covers t (mem_window (by omega) (by omega)) z' hz' hzx'
  · exact h.covers (t - 1) (mem_window (by omega) (by omega)) z' hz' hzx'

/-- So the ends of the range, tried last, change nothing. -/
theorem Chosen.stays (h : Chosen x lo hi (window x) best) (hx : x.c ≠ 0) (hle : lo ≤ hi) (f : ℤ) :
    Meets (fun _ => True) (tryExponent x lo hi best f) (· = best) := by
  have hspec := meets_tryExponent (T := fun _ => True) (f := f) hle h.searched (Or.inl trivial)
  refine (hspec.and (meets_tryExponent_moves hle best f)).mono ?_
  rintro r ⟨⟨hr, -, -⟩, rfl | ⟨hlt, he⟩⟩
  · rfl
  · have hmem : r.val ∈ radixGrid 10 int224Min int224Max r.e :=
      ⟨r.c, hr.fits.1, hr.fits.2, by simp [val]⟩
    have hrange := within_mem hle f
    rw [← he] at hrange
    exact absurd hlt (h.dominates hx hrange.1 hrange.2 hmem hr.mem).not_gt

/-- Below the magnitude of a number there is, in every grid, the power of ten with 68 digits. -/
theorem exists_power_mem {q : ℚ} {e : ℤ} (h : (10 : ℚ) ^ (e + 68) ≤ |q|) :
    ∃ z ∈ radixGrid 10 int224Min int224Max (e + 1), z ∈ Set.uIcc 0 q ∧
      |z| = (10 : ℚ) ^ (e + 68) := by
  rcases exists_unit_mem h with ⟨s, -, hsq, habs⟩
  refine ⟨_, ?_, hsq, habs⟩
  have hs : |s| = 1 := by
    rw [← abs_cast_mul_zpow] at habs
    exact_mod_cast mul_eq_right₀ (ten_zpow_pos (e + 68)).ne' |>.1 habs
  have hs' := abs_le.1 hs.le
  have hmax : (10 : ℤ) ^ 67 ≤ int224Max := by decide
  have hmin : int224Min ≤ -(10 : ℤ) ^ 67 := by decide
  refine ⟨s * 10 ^ 67, by omega, by omega, ?_⟩
  have hsplit : e + 68 = 67 + (e + 1) := by omega
  rw [hsplit, ten_zpow_add]
  push_cast
  rw [mul_assoc]

theorem abs_val_lt_of_fits {w : Dec} (h : int224Min ≤ w.c ∧ w.c ≤ int224Max) :
    |w.val| < (10 : ℚ) ^ (w.e + 68) := by
  rcases eq_or_ne w.c 0 with h0 | h0
  · rw [val_eq_zero_iff.2 h0, abs_zero]
    exact ten_zpow_pos _
  · have hdigits := digits_le_of_fits h
    refine (val_abs_bounds h0).2.trans_le ?_
    exact ten_zpow_le.2 (by omega)

/-- Every representation in range of the value found has at least the exponent found. -/
theorem Chosen.least (h : Chosen x lo hi (window x) best) (hx : x.c ≠ 0)
    (hbest : best ≠ zero) {w : Dec} (hfits : int224Min ≤ w.c ∧ w.c ≤ int224Max) (hlo : lo ≤ w.e)
    (hhi : w.e ≤ hi) (hw : w.val = best.val) : best.e ≤ w.e := by
  have hmem : w.val ∈ Set.uIcc 0 x.val := hw ▸ h.searched.mem
  have hgrid : w.val ∈ radixGrid 10 int224Min int224Max w.e :=
    ⟨w.c, hfits.1, hfits.2, by simp [val]⟩
  have hbe : best.e ≤ hi := (h.searched.range.resolve_left hbest).2
  by_contra hlt
  rw [not_le] at hlt
  rcases lt_or_ge w.e (x.e + digits x.c - 70) with hlow | hlow
  · -- So far down the value would be short of a power of ten that is in range.
    have hpow : (10 : ℚ) ^ (w.e + 68) ≤ |x.val| := by
      refine le_trans ?_ (val_abs_bounds hx).1
      exact ten_zpow_le.2 (by omega)
    rcases exists_power_mem hpow with ⟨z, hz, hzx, habs⟩
    have hreach := h.dominates hx (by omega) (by omega) hz hzx
    rw [habs, ← hw] at hreach
    exact absurd (abs_val_lt_of_fits hfits) hreach.not_gt
  · -- Otherwise an exponent that was tried before the best holds the value too.
    have hlast := le_within_min (x.e + digits x.c - 66) hlo hhi
    have htried : min w.e (x.e + digits x.c - 66) ∈ window x :=
      mem_window (by omega) (by omega)
    have hsmall := within_min_le hi (x.e + digits x.c - 66) hlo
    have hfiner : w.val ∈ radixGrid 10 int224Min int224Max
        (within lo hi (min w.e (x.e + digits x.c - 66))) := by
      rcases hlast with heq | hge
      · rwa [heq]
      · rcases exists_turning hx with ⟨t, -, ht, hfull, -⟩
        have hfull' := hfull.mono (by norm_num) int224Min_neg.le int224Max_pos.le
          ((ht.trans (by omega)).trans hge)
        exact mem_radixGrid_of_full (by norm_num) int224Min_neg.le int224Max_pos.le hfull' hsmall
          hgrid hmem
    have hbehind := h.ahead.resolve_left hbest _ htried (hsmall.trans_lt hlt) w.val hfiner hmem
    rw [hw] at hbehind
    exact lt_irrefl _ hbehind

/-- The search ends at the smallest exponent of the value it finds. -/
theorem meets_nearestWithin_least (hx : x.c ≠ 0) (hle : lo ≤ hi) :
    Meets (fun _ => True) (nearestWithin x lo hi) fun r => r = zero ∨
      ∀ w : Dec, int224Min ≤ w.c ∧ w.c ≤ int224Max → lo ≤ w.e → w.e ≤ hi → w.val = r.val →
        r.e ≤ w.e := by
  unfold nearestWithin
  refine (meets_i64 (Or.inl trivial)).bind_eq ?_
  refine (meets_i64 (Or.inl trivial)).bind_eq ?_
  refine (meets_i64 (Or.inl trivial)).bind_eq ?_
  rw [List.foldlM_append]
  refine (meets_window hle (window_pairwise x)).bind ?_
  intro r hr
  refine (hr.stays hx hle lo).bind_eq ?_
  refine (hr.stays hx hle hi).bind_eq ?_
  rcases eq_or_ne r zero with hzero | hne
  · exact Or.inl hzero
  · refine Or.inr ?_
    intro w hfits hlo hhi hw
    exact hr.least hx hne hfits hlo hhi hw

end Window

/-! ## Canonical results -/

/-- Zero as such, or the representation of its value with the most digits. -/
def Canonical (v : Dec) : Prop :=
  v = zero ∨ v.c ≠ 0 ∧ ∀ w, IsFloat w → w.val = v.val → v.e ≤ w.e

theorem canonical_zero : Canonical zero :=
  Or.inl rfl

/-- A value has one canonical representation. -/
theorem Canonical.unique {v w : Dec} (hv : Canonical v) (hw : Canonical w) (h : SameFloat v w) :
    v = w := by
  have hzero := h.c_eq_zero_iff
  rcases hv with rfl | ⟨hv0, hv⟩
  · rcases hw with rfl | ⟨hw0, -⟩
    · rfl
    · exact absurd (hzero.1 rfl) hw0
  · rcases hw with rfl | ⟨-, hw⟩
    · exact absurd (hzero.2 rfl) hv0
    · have he : v.e = w.e := le_antisymm (hv w h.right h.val.symm) (hw v h.left h.val)
      have hc : v.c = w.c := by
        have hval := h.val
        rw [val, val, he] at hval
        exact_mod_cast mul_right_cancel₀ (ten_zpow_pos w.e).ne' hval
      cases v
      cases w
      subst he hc
      rfl

theorem meets_pack_canonical (x : Dec) :
    Meets (fun _ => True) (pack x) fun p => ∀ v l, p = .value v l → Canonical v := by
  unfold pack
  by_cases hx : x.c = 0
  · rw [if_pos (isZero_iff.2 hx)]
    rintro v l ⟨⟩
    exact canonical_zero
  rw [if_neg (by simpa using hx)]
  -- The test against the extremes computes nothing that is kept.
  refine Meets.bind_last fun _ => Meets.bind_last fun _ => Meets.bind_last fun _ =>
    Meets.bind_last fun _ => Meets.bind_last fun beyond => ?_
  split
  · rintro v l ⟨⟩
  refine (meets_nearestWithin_least hx (by decide)).bind ?_
  intro best hbest
  split
  · rintro v l ⟨⟩
  · rename_i hz
    refine Meets.bind_last ?_
    rintro lossless v l ⟨⟩
    refine hbest.imp_right fun hleast => ⟨?_, ?_⟩
    · rwa [isZero_iff] at hz
    · intro w hw hval
      exact hleast w (fitsInt224_iff.1 hw.coefficient) hw.exponent_ge hw.exponent_le hval

/-- If a run yields a Float, this is canonical. -/
abbrev YieldsCanonical (m : Exec (Except RefError Dec)) : Prop :=
  Meets (fun _ => True) m fun r => ∀ v, r = .ok v → Canonical v

theorem yieldsCanonical_zero : YieldsCanonical (pure (.ok zero)) := by
  rintro v ⟨⟩
  exact canonical_zero

theorem yieldsCanonical_arithmetic (x : Dec) : YieldsCanonical (arithmetic x) := by
  refine (meets_pack_canonical x).bind ?_
  intro p hp
  cases p with
  | value v l =>
      rintro w ⟨⟩
      exact hp v l rfl
  | underflow => rintro w ⟨⟩
  | overflow => rintro w ⟨⟩

theorem yieldsCanonical_add (a b : Dec) : YieldsCanonical (add a b) :=
  Meets.bind_last fun _ => Meets.bind_last fun sum => yieldsCanonical_arithmetic sum

theorem yieldsCanonical_div (a b : Dec) : YieldsCanonical (div a b) := by
  unfold div
  split
  · rintro v ⟨⟩
  split
  · exact yieldsCanonical_zero
  · exact Meets.bind_last fun _ => Meets.bind_last fun _ => yieldsCanonical_arithmetic _

theorem yieldsCanonical_frac (a : Dec) : YieldsCanonical (frac a) := by
  unfold frac
  split
  · exact yieldsCanonical_zero
  -- The whole Float is its own fraction, or the rest is rounded.
  refine Meets.bind_last fun t => ?_
  split
  · exact yieldsCanonical_arithmetic a
  · exact Meets.bind_last fun _ => yieldsCanonical_arithmetic _

theorem yieldsCanonical_floor (a : Dec) : YieldsCanonical (floor a) := by
  refine Meets.bind_last fun t => ?_
  split
  · refine Meets.bind_last fun whole => ?_
    split
    · exact yieldsCanonical_arithmetic t
    · exact yieldsCanonical_arithmetic _
  · exact yieldsCanonical_arithmetic t

/-- Every operation ends in a rounding, or in a zero that is not rounded. -/
theorem yieldsCanonical_of_mem_outcomes {a b : Dec} {m : Exec (Except RefError Dec)}
    (hm : m ∈ outcomes a b) : YieldsCanonical m := by
  simp only [outcomes, List.mem_cons, List.not_mem_nil, or_false] at hm
  rcases hm with rfl | rfl | rfl | rfl | rfl | rfl | rfl | rfl | rfl | rfl
  · exact yieldsCanonical_add a b
  · exact yieldsCanonical_add a b.neg
  · exact Meets.bind_last fun _ => yieldsCanonical_arithmetic _
  · exact yieldsCanonical_div a b
  · exact yieldsCanonical_div ⟨1, 0⟩ a
  · exact yieldsCanonical_arithmetic a.neg
  · exact yieldsCanonical_arithmetic a.abs
  · exact Meets.bind_last fun t => yieldsCanonical_arithmetic t
  · exact yieldsCanonical_frac a
  · exact yieldsCanonical_floor a

theorem eq_of_runAlike {m m' : Exec (Except RefError Dec)} (h : RunAlike SameFloat m m')
    (hm : YieldsCanonical m) (hm' : YieldsCanonical m') : m = m' := by
  rcases h with ⟨r, r', rfl, rfl, halike⟩
  match r, r', halike with
  | .ok v, .ok w, hsame => rw [Canonical.unique (hm v rfl) (hm' w rfl) hsame]
  | .error e, .error f, heq =>
      have hef : e = f := heq
      rw [hef]

theorem meets_fromFixedDecimalLossy_canonical (v : U256) (d : UInt8) :
    Meets (fun _ => True) (fromFixedDecimalLossy v d) fun r => Canonical r.1 := by
  refine Meets.bind_last fun e => ?_
  refine (meets_pack_canonical ⟨u256ToBig v, e⟩).bind ?_
  intro p hp
  cases p with
  | value f l => exact hp f l rfl
  | underflow => exact trivial
  | overflow => exact trivial

theorem meets_parseRef_canonical (s : Text) :
    Meets (fun _ => True) (parseRef s) fun r => ∀ w, r = .value w → Canonical w := by
  refine Meets.bind_last fun x => ?_
  refine (meets_pack_canonical x).bind ?_
  intro p hp
  match p with
  | .value w true =>
      rintro v ⟨⟩
      exact hp w true rfl
  | .value _ false | .underflow | .overflow => rintro v ⟨⟩

/-- Lists related element by element are equal if related elements are. -/
theorem eq_of_forall₂ {α : Type} {R : α → α → Prop} {P : α → Prop}
    (heq : ∀ x y, R x y → P x → P y → x = y) {l l' : List α} (h : List.Forall₂ R l l')
    (hl : ∀ x ∈ l, P x) (hl' : ∀ x ∈ l', P x) : l = l' := by
  induction h with
  | nil => rfl
  | cons hxy _ ih =>
      rw [List.forall_mem_cons] at hl hl'
      rw [heq _ _ hxy hl.1 hl'.1, ih hl.2 hl'.2]

/-- The bytes of a result depend on nothing but its value, whatever operation it comes from and
however the operands are represented: they are those with the most digits.  The same goes for Floats
made from fixed-point integers and from text, so two Floats of either kind are equal in value only
if they are the same. -/
theorem results_canonical (a b a' b' : Dec) (ha : IsFloat a) (hb : IsFloat b) (ha' : IsFloat a')
    (hb' : IsFloat b') (haa : a.val = a'.val) (hbb : b.val = b'.val) :
    outcomes a b = outcomes a' b' ∧
    (∀ m ∈ outcomes a b, ∀ v, m = .ok (.ok v) → Canonical v) ∧
    (∀ v d f l, fromFixedDecimalLossy v d = .ok (f, l) → Canonical f) ∧
    (∀ s w, parseRef s = .ok (.value w) → Canonical w) ∧
    ∀ v w, IsFloat v → IsFloat w → Canonical v → Canonical w → v.val = w.val → v = w := by
  refine ⟨?_, ?_, ?_, ?_, ?_⟩
  · -- Results of the same value are the same, once both are canonical.
    exact eq_of_forall₂ (P := YieldsCanonical) (fun _ _ => eq_of_runAlike)
      (forall₂_outcomes ⟨ha, ha', haa⟩ ⟨hb, hb', hbb⟩)
      (fun _ hm => yieldsCanonical_of_mem_outcomes hm)
      (fun _ hm => yieldsCanonical_of_mem_outcomes hm)
  · intro m hm v hv
    exact (yieldsCanonical_of_mem_outcomes hm).of_eq_ok hv v rfl
  · intro v d f l hf
    exact (meets_fromFixedDecimalLossy_canonical v d).of_eq_ok hf
  · intro s w hw
    exact (meets_parseRef_canonical s).of_eq_ok hw w rfl
  · intro v w hv hw hcanonical hcanonical' hval
    exact hcanonical.unique hcanonical' ⟨hv, hw, hval⟩

/-- Twelve hundred, divided by three. -/
theorem results_canonical_twelve_hundred :
    outcomes ⟨12, 2⟩ ⟨3, 0⟩ = outcomes ⟨1200, 0⟩ ⟨30, -1⟩ := by
  have hval : (⟨12, 2⟩ : Dec).val = (⟨1200, 0⟩ : Dec).val := by norm_num [val]
  have hval' : (⟨3, 0⟩ : Dec).val = (⟨30, -1⟩ : Dec).val := by norm_num [val]
  exact (results_canonical ⟨12, 2⟩ ⟨3, 0⟩ ⟨1200, 0⟩ ⟨30, -1⟩ ⟨by decide, by decide, by decide⟩
    ⟨by decide, by decide, by decide⟩ ⟨by decide, by decide, by decide⟩
    ⟨by decide, by decide, by decide⟩ hval hval').1

end Reference
end RainFloat
