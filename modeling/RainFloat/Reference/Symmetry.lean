import RainFloat.Reference.Laws

/-!
# Symmetry — operands of the other sign, or on another scale

Rounding towards zero treats both signs alike, but coefficients reach one unit further below zero
than above.  It also treats all scales alike, until the exponent runs out.

* `Rounds.opposite`: opposite numbers round to opposite outcomes, up to that one unit;
* `operations_odd`: sums, differences, products and quotients of opposite operands;
* `Rounds.scaled`: a number and its product with a power of ten round alike;
* `operations_scale`: so do results, where no digits are lost at the smallest exponent.
-/

namespace RainFloat
namespace Reference

open Foundation Dec

/-! ## Opposite numbers -/

/-- The numbers `c × 10^e` of an int224 coefficient and an exponent in `E`. -/
abbrev Grid (E : Set ℤ) : Set ℚ :=
  radixGrids 10 int224Min int224Max E

/-- The positive numbers of a grid have their opposites in it. -/
theorem neg_mem_grid {E : Set ℤ} {z : ℚ} (hz : z ∈ Grid E) (hz0 : 0 ≤ z) : -z ∈ Grid E := by
  rcases hz with ⟨e, he, c, hc, hc', rfl⟩
  have hmin : int224Min = -int224Max - 1 := by decide
  have hc0 : 0 ≤ c := by
    have hpos : (0 : ℚ) < ((10 : ℕ) : ℚ) ^ e := ten_zpow_pos e
    exact_mod_cast nonneg_of_mul_nonneg_left hz0 hpos
  exact ⟨e, he, -c, by omega, by omega, by push_cast; ring⟩

/-- The opposite of `y` in a grid: only the smallest coefficient has none and gives way to the
largest. -/
def OppositeIn (E : Set ℤ) (y y' : ℚ) : Prop :=
  y' = -y ∨ ∃ e ∈ E, y = (⟨int224Min, e⟩ : Dec).val ∧ y' = (⟨int224Max, e⟩ : Dec).val

/-- The negative numbers of a grid have their opposites rounded to opposites. -/
theorem exists_opposite {E : Set ℤ} {y : ℚ} (hy : y ∈ Grid E) (hy0 : y ≤ 0) :
    ∃ y', TruncatesTo (Grid E) (-y) y' ∧ OppositeIn E y y' := by
  rcases hy with ⟨e, he, c, hc, hc', hval⟩
  have hval' : y = (⟨c, e⟩ : Dec).val := hval
  -- Every coefficient but the smallest has an opposite.
  by_cases hmin : c = int224Min
  · subst hmin
    refine ⟨(⟨int224Max, e⟩ : Dec).val, ?_, Or.inr ⟨e, he, hval', rfl⟩⟩
    have htrunc := truncatesTo_neg_int224Min e
    rw [anyExponent_eq] at htrunc
    rw [hval', ← val_neg]
    have hneg : (Dec.neg ⟨int224Min, e⟩).val = -(int224Min : ℚ) * (10 : ℚ) ^ e := by
      rw [val_neg, val, neg_mul]
    rw [hneg]
    apply htrunc.restrict (radixGrids_mono (Set.subset_univ E))
    exact ⟨e, he, int224Max, by decide, le_rfl, rfl⟩
  · refine ⟨-y, TruncatesTo.of_mem ?_, Or.inl rfl⟩
    have hbounds : int224Min = -int224Max - 1 := by decide
    have hpos := ten_zpow_pos e
    have hc0 : c ≤ 0 := by
      rw [hval', ← not_lt, val_pos_iff, not_lt] at hy0
      exact hy0
    refine ⟨e, he, -c, ?_, ?_, ?_⟩
    · omega
    · omega
    · rw [hval]
      push_cast
      ring

/-- Opposite numbers are truncated to opposite numbers. -/
theorem truncatesTo_opposite {E : Set ℤ} {q y y' : ℚ} (h : TruncatesTo (Grid E) q y)
    (h' : TruncatesTo (Grid E) (-q) y') (hq : q ≤ 0) : OppositeIn E y y' := by
  rcases exists_opposite h.1 (h.nonpos hq) with ⟨w, hw, hopposite⟩
  -- In the mirrored grid `-q` is truncated to `-y`, and from there into the grid itself.
  have hmirror : TruncatesTo (Grid E) (-q) w := by
    apply h.neg.trans hw (neg_nonneg.2 hq)
    intro z hz hz0
    exact neg_mem_grid hz hz0
  rwa [h'.unique hmirror]

/-- The extreme Floats are as far away on both sides. -/
theorem beyondExtremes_neg {q : ℚ} (hq : q ≤ 0) : BeyondExtremes q ↔ BeyondExtremes (-q) := by
  rcases exists_truncatesTo_anyExponent q with ⟨u, hu⟩
  rcases exists_truncatesTo_anyExponent (-q) with ⟨u', hu'⟩
  have hu0 := hu.nonpos hq
  have hu0' := hu'.nonneg (neg_nonneg.2 hq)
  have hleft : OutOfReach u ↔ u < minNegative.val := by
    apply or_iff_right
    exact (hu0.trans maxPositive_val_pos.le).not_gt
  have hright : OutOfReach u' ↔ maxPositive.val < u' := by
    apply or_iff_left
    exact (minNegative_val_neg.le.trans hu0').not_gt
  -- Each number can only get out of reach on its own side.
  rw [beyondExtremes_iff hu, beyondExtremes_iff hu', hleft, hright]
  have hmem : u' ∈ AnyExponent := hu'.1
  rw [anyExponent_eq] at hu hu'
  rcases truncatesTo_opposite hu hu' hq with heq | ⟨e, -, hmin, hmax⟩
  · rw [heq] at hmem ⊢
    constructor
    · intro hlt
      have hextremes : maxPositive.val < -minNegative.val := by
        rw [← val_neg, maxPositive, minNegative, Dec.neg, val, val]
        exact mul_lt_mul_of_pos_right (by norm_num [int224Min, int224Max]) (ten_zpow_pos _)
      linarith
    · intro hlt
      by_contra hge
      rw [not_lt] at hge
      -- Between the two extremes there is no number of the grid.
      have hval : -minNegative.val = -(int224Min : ℚ) * (10 : ℚ) ^ i32Max := by
        rw [minNegative, val, neg_mul]
      have hle : -u ≤ maxPositive.val := by
        apply (truncatesTo_neg_int224Min i32Max).le_of_le hmem (neg_nonneg.2 hu0)
        rw [← hval]
        linarith
      exact absurd hlt hle.not_gt
  · have hmax0 : (0 : ℚ) < int224Max := by exact_mod_cast int224Max_pos
    have hmin0 : (int224Min : ℚ) < 0 := by exact_mod_cast int224Min_neg
    rw [hmin, hmax, maxPositive, minNegative, val, val, val, val,
      mul_lt_mul_left_of_neg hmin0, mul_lt_mul_iff_of_pos_left hmax0]

/-! ## Opposite outcomes -/

/-- Opposite Floats. -/
def OppositeVal (v w : Dec) : Prop :=
  w.val = -v.val ∨
    (∃ e, v.val = (⟨int224Min, e⟩ : Dec).val ∧ w.val = (⟨int224Max, e⟩ : Dec).val) ∨
    ∃ e, w.val = (⟨int224Min, e⟩ : Dec).val ∧ v.val = (⟨int224Max, e⟩ : Dec).val

theorem OppositeVal.symm {v w : Dec} (h : OppositeVal v w) : OppositeVal w v := by
  rcases h with h | h | h
  · exact Or.inl (by rw [h, neg_neg])
  · exact Or.inr (Or.inr h)
  · exact Or.inr (Or.inl h)

theorem Alike.symm {ε α β : Type} {R : α → β → Prop} {R' : β → α → Prop}
    (hR : ∀ v w, R v w → R' w v) {r : Except ε α} {r' : Except ε β} (h : Alike R r r') :
    Alike R' r' r := by
  match r, r', h with
  | .ok v, .ok w, hvw => exact hR v w hvw
  | .error e, .error f, hef => exact Eq.symm hef

theorem Rounds.opposite_of_nonpos {q : ℚ} {r r' : Except RefError Dec} (h : Rounds q r)
    (h' : Rounds (-q) r') (hq : q ≤ 0) : Alike OppositeVal r r' := by
  have hbeyond := beyondExtremes_neg hq
  have hsmall : ∀ {v : Dec}, TruncatesTo Representable q v.val → |-q| < (10 : ℚ) ^ i32Min →
      v.val = 0 := by
    intro v hv hlt
    rw [abs_neg] at hlt
    exact (truncatesTo_representable_eq_zero hv).2 hlt
  match r, h, r', h' with
  | .ok v, ⟨_, _, _, hv⟩, .ok w, ⟨_, _, _, hw⟩ =>
      rw [representable_eq] at hv hw
      rcases truncatesTo_opposite hv hw hq with heq | ⟨e, -, hmin, hmax⟩
      · exact Or.inl heq
      · exact Or.inr (Or.inl ⟨e, hmin, hmax⟩)
  | .ok v, ⟨_, h0, _, hv⟩, .error .exponentUnderflow, ⟨_, hne, hlt⟩ =>
      exact absurd (hsmall hv hlt) (h0 (neg_ne_zero.1 hne))
  | .ok v, ⟨hin, _⟩, .error .exponentOverflow, hout => exact absurd (hbeyond.2 hout) hin
  | .error .exponentUnderflow, ⟨_, hne, hlt⟩, .ok w, ⟨_, h0, _, hw⟩ =>
      rw [← abs_neg] at hlt
      exact absurd ((truncatesTo_representable_eq_zero hw).2 hlt) (h0 (neg_ne_zero.2 hne))
  | .error .exponentUnderflow, _, .error .exponentUnderflow, _ => exact rfl
  | .error .exponentUnderflow, ⟨hin, _⟩, .error .exponentOverflow, hout =>
      exact absurd (hbeyond.2 hout) hin
  | .error .exponentOverflow, hout, .ok w, ⟨hin, _⟩ => exact absurd (hbeyond.1 hout) hin
  | .error .exponentOverflow, hout, .error .exponentUnderflow, ⟨hin, _⟩ =>
      exact absurd (hbeyond.1 hout) hin
  | .error .exponentOverflow, _, .error .exponentOverflow, _ => exact rfl

/-- Opposite numbers round to opposite outcomes. -/
theorem Rounds.opposite {q : ℚ} {r r' : Except RefError Dec} (h : Rounds q r)
    (h' : Rounds (-q) r') : Alike OppositeVal r r' := by
  rcases le_total q 0 with hq | hq
  · exact h.opposite_of_nonpos h' hq
  · -- The opposite of the opposite is the number itself.
    have hback : Rounds (- -q) r := by rwa [neg_neg]
    have halike := h'.opposite_of_nonpos hback (neg_nonpos.2 hq)
    exact halike.symm fun _ _ hvw => hvw.symm

theorem runOpposite_of_rounds {m m' : Exec (Except RefError Dec)} {q q' : ℚ}
    (h : Meets (fun _ => False) m (Rounds q)) (h' : Meets (fun _ => False) m' (Rounds q'))
    (hq : q' = -q) : RunAlike OppositeVal m m' := by
  subst hq
  rcases h.returns with ⟨r, hr, hround⟩
  rcases h'.returns with ⟨r', hr', hround'⟩
  exact ⟨r, r', hr, hr', hround.opposite hround'⟩

/-- Dividing one way or the other fails for the same divisors. -/
theorem runOpposite_div {a b a' b' : Dec} (ha : IsFloat a) (hb : IsFloat b) (ha' : IsFloat a')
    (hb' : IsFloat b') (hzero : b.c = 0 ↔ b'.c = 0)
    (hq : a'.val / b'.val = -(a.val / b.val)) : RunAlike OppositeVal (div a b) (div a' b') := by
  by_cases hb0 : b.c = 0
  · rw [div_zero_divisor a hb0, div_zero_divisor a' (hzero.1 hb0)]
    exact ⟨_, _, rfl, rfl, rfl⟩
  · have hb0' : b'.c ≠ 0 := fun h => hb0 (hzero.2 h)
    exact runOpposite_of_rounds (meets_div ha hb hb0) (meets_div ha' hb' hb0') hq

/-- Operands of the opposite sign give results of the opposite sign, and the same errors, but for
the one coefficient that has no opposite. -/
theorem operations_odd (a b a' b' : Dec) (ha : IsFloat a) (hb : IsFloat b) (ha' : IsFloat a')
    (hb' : IsFloat b') (haa : a'.val = -a.val) (hbb : b'.val = -b.val) :
    RunAlike OppositeVal (add a b) (add a' b') ∧ RunAlike OppositeVal (sub a b) (sub a' b') ∧
    RunAlike OppositeVal (sub a b) (sub b a) ∧
    RunAlike OppositeVal (mul a b) (mul a' b) ∧ RunAlike OppositeVal (mul a b) (mul a b') ∧
    RunAlike OppositeVal (div a b) (div a' b) ∧ RunAlike OppositeVal (div a b) (div a b') := by
  have hzero : b.c = 0 ↔ b'.c = 0 := by
    rw [← val_eq_zero_iff, ← val_eq_zero_iff, hbb, neg_eq_zero]
  refine ⟨?_, ?_, ?_, ?_, ?_, ?_, ?_⟩
  · apply runOpposite_of_rounds (meets_add ha.isOperand hb.isOperand)
      (meets_add ha'.isOperand hb'.isOperand)
    rw [haa, hbb, neg_add]
  · apply runOpposite_of_rounds (meets_sub ha hb) (meets_sub ha' hb')
    rw [haa, hbb]
    ring
  · -- Operands that trade places make the opposite difference.
    apply runOpposite_of_rounds (meets_sub ha hb) (meets_sub hb ha)
    rw [neg_sub]
  · apply runOpposite_of_rounds (meets_mul ha hb) (meets_mul ha' hb)
    rw [haa, neg_mul]
  · apply runOpposite_of_rounds (meets_mul ha hb) (meets_mul ha hb')
    rw [hbb, mul_neg]
  · apply runOpposite_div ha hb ha' hb Iff.rfl
    rw [haa, neg_div]
  · apply runOpposite_div ha hb ha hb' hzero
    rw [hbb, div_neg]

/-- The opposite of a product with the smallest coefficient has the largest one. -/
theorem operations_odd_extremes :
    RunAlike OppositeVal (mul ⟨-2 ^ 222, 0⟩ ⟨2, 0⟩) (mul ⟨2 ^ 222, 0⟩ ⟨2, 0⟩) :=
  (operations_odd ⟨-2 ^ 222, 0⟩ ⟨2, 0⟩ ⟨2 ^ 222, 0⟩ ⟨-2, 0⟩ ⟨by decide, by decide, by decide⟩
    ⟨by decide, by decide, by decide⟩ ⟨by decide, by decide, by decide⟩
    ⟨by decide, by decide, by decide⟩ (by norm_num [val]) (by norm_num [val])).2.2.2.1

/-! ## Another scale -/

/-- With the exponent free, a power of ten makes no difference. -/
theorem TruncatesTo.anyExponent_scale {q u : ℚ} (h : TruncatesTo AnyExponent q u) (k : ℤ) :
    TruncatesTo AnyExponent (q * (10 : ℚ) ^ k) (u * (10 : ℚ) ^ k) := by
  have hpos := ten_zpow_pos k
  -- The power goes into the exponent.
  have hmem : ∀ z ∈ AnyExponent, ∀ j : ℤ, z * (10 : ℚ) ^ j ∈ AnyExponent := by
    rintro z ⟨c, e, hc, rfl⟩ j
    exact ⟨c, e + j, hc, by rw [ten_zpow_add, mul_assoc]⟩
  apply (h.scale hpos).restrict ?_ (hmem u h.1 k)
  intro z hz
  change z / (10 : ℚ) ^ k ∈ AnyExponent
  rw [div_eq_mul_inv, ← zpow_neg]
  exact hmem z hz (-k)

/-- No digits of `q` are lost because the exponent cannot get smaller. -/
def Kept (q : ℚ) : Prop :=
  (∃ n : ℤ, q = (n : ℚ) * (10 : ℚ) ^ i32Min) ∨ (2 : ℚ) ^ 223 * (10 : ℚ) ^ i32Min ≤ |q|

/-- Then rounding is truncation with the exponent free. -/
theorem Rounds.truncatesTo_anyExponent {q : ℚ} {v : Dec} (h : Rounds q (.ok v)) (hq : Kept q) :
    TruncatesTo AnyExponent q v.val := by
  rcases exists_truncatesTo_anyExponent q with ⟨u, hu⟩
  suffices hmem : u ∈ Representable by
    have hv : v.val = u := h.2.2.2.unique (hu.restrict representable_subset hmem)
    rwa [hv]
  have hclose := close_of_anyExponent hu
  have hreach := h.1
  rw [beyondExtremes_iff hu] at hreach
  rcases hu.1 with ⟨c, e, hc, rfl⟩
  by_cases he : i32Min ≤ e
  · exact representable_of_exponent_ge hc he hreach
  rw [not_le] at he
  have hsmall := abs_le_of_exponent_lt hc he
  have hpos := ten_zpow_pos i32Min
  -- Nine tenths of the digits would be missing.
  have hq_small : |q| * 9 ≤ (2 : ℚ) ^ 223 * (10 : ℚ) ^ i32Min := by
    rcases hclose.2 with heq | hlt
    · rw [← heq]
      nlinarith [abs_nonneg ((c : ℚ) * (10 : ℚ) ^ e)]
    · have htri := abs_sub_abs_le_abs_sub q ((c : ℚ) * (10 : ℚ) ^ e)
      nlinarith [abs_nonneg (q - (c : ℚ) * (10 : ℚ) ^ e)]
  rcases hq with ⟨n, hn⟩ | hlarge
  · -- A multiple of the smallest Float is a Float itself.
    have hmem : q ∈ Representable := by
      have hbound : |(n : ℚ)| * 9 ≤ (2 : ℚ) ^ 223 := by
        rw [hn, abs_mul, abs_of_pos hpos] at hq_small
        have hmul : |(n : ℚ)| * 9 * (10 : ℚ) ^ i32Min ≤ (2 : ℚ) ^ 223 * (10 : ℚ) ^ i32Min := by
          linarith
        exact le_of_mul_le_mul_right hmul hpos
      have hbound' : |n| * 9 ≤ 2 ^ 223 := by exact_mod_cast hbound
      have habs := abs_le.1 (le_refl |n|)
      refine ⟨n, i32Min, fitsInt224_iff.2 ⟨?_, ?_⟩, le_rfl, by decide, hn⟩
      · unfold int224Min
        omega
      · unfold int224Max
        omega
    rwa [hu.eq_of_mem (representable_subset hmem)]
  · have hpos' : (0 : ℚ) < (2 : ℚ) ^ 223 * (10 : ℚ) ^ i32Min := by positivity
    linarith

theorem Rounds.scaled {q : ℚ} {k : ℤ} {v w : Dec} (h : Rounds q (.ok v))
    (h' : Rounds (q * (10 : ℚ) ^ k) (.ok w)) (hq : Kept q) (hq' : Kept (q * (10 : ℚ) ^ k)) :
    w.val = v.val * (10 : ℚ) ^ k := by
  have hv := TruncatesTo.anyExponent_scale (h.truncatesTo_anyExponent hq) k
  exact (h'.truncatesTo_anyExponent hq').unique hv

/-- A number that is kept does not underflow. -/
theorem Kept.not_underflow {q : ℚ} (h : Kept q) (hq : q ≠ 0) : ¬ |q| < (10 : ℚ) ^ i32Min := by
  rw [not_lt]
  rcases h with ⟨n, hn⟩ | hlarge
  · exact le_abs_of_multiple hn hq
  · have hpos := ten_zpow_pos i32Min
    calc
      (10 : ℚ) ^ i32Min ≤ (2 : ℚ) ^ 223 * (10 : ℚ) ^ i32Min :=
        le_mul_of_one_le_left hpos.le (by norm_num)
      _ ≤ |q| := hlarge

/-- Closer to zero nothing gets out of reach. -/
theorem not_beyondExtremes_of_smaller {q : ℚ} (h : ¬ BeyondExtremes q) {t : ℚ} (ht : 0 ≤ t)
    (ht1 : t ≤ 1) : ¬ BeyondExtremes (q * t) := by
  intro hbeyond
  apply h
  -- The larger number on the same side is out of reach as well.
  rcases lt_or_ge q 0 with hq | hq
  · have hneg : q * t < 0 := by
      apply lt_of_le_of_ne (mul_nonpos_of_nonpos_of_nonneg hq.le ht)
      intro h0
      rw [h0] at hbeyond
      exact not_beyondExtremes_zero hbeyond
    apply hbeyond.of_ge hneg
    nlinarith
  · apply hbeyond.of_le (mul_nonneg hq ht)
    nlinarith

/-- The decimal with the exponent `k` smaller. -/
def scaledDown (x : Dec) (k : ℕ) : Dec :=
  ⟨x.c, x.e - k⟩

theorem scaledDown_val (x : Dec) (k : ℕ) :
    (scaledDown x k).val = x.val * (10 : ℚ) ^ (-(k : ℤ)) := by
  rw [scaledDown, val, val, sub_eq_add_neg, ten_zpow_add, mul_assoc]

/-- Whenever the first run returns a Float, the second returns `10^-k` times that. -/
def RunScaled (k : ℕ) (m m' : Exec (Except RefError Dec)) : Prop :=
  ∀ v, m = .ok (.ok v) →
    ∃ w, m' = .ok (.ok w) ∧ IsFloat w ∧ w.val = v.val * (10 : ℚ) ^ (-(k : ℤ))

theorem ten_zpow_neg_le_one (k : ℕ) : (10 : ℚ) ^ (-(k : ℤ)) ≤ 1 := by
  rw [zpow_neg, zpow_natCast]
  exact inv_le_one_of_one_le₀ (one_le_pow₀ (by norm_num))

theorem runScaled_of_rounds {k : ℕ} {m m' : Exec (Except RefError Dec)} {q q' : ℚ}
    (h : Meets (fun _ => False) m (Rounds q)) (h' : Meets (fun _ => False) m' (Rounds q'))
    (hq : q' = q * (10 : ℚ) ^ (-(k : ℤ))) (hkept : Kept q) (hkept' : Kept q') :
    RunScaled k m m' := by
  intro v hv
  subst hq
  have hround := h.of_eq_ok hv
  rcases h'.returns with ⟨r', hr', hround'⟩
  have hreach := not_beyondExtremes_of_smaller hround.1 (ten_zpow_pos _).le (ten_zpow_neg_le_one k)
  match r', hround' with
  | .ok w, hround' => exact ⟨w, hr', hround'.2.2.1, hround.scaled hround' hkept hkept'⟩
  | .error .exponentUnderflow, ⟨_, hne, hlt⟩ => exact absurd hlt (hkept'.not_underflow hne)
  | .error .exponentOverflow, hbeyond => exact absurd hbeyond hreach

/-- On a smaller scale the results are the same.  A sum or difference is as many powers of ten
smaller as its operands, and so is a product or quotient with its left operand, as long as it keeps
its digits above the smallest exponent. -/
theorem operations_scale (a b : Dec) (k : ℕ) (ha : IsFloat a) (hb : IsFloat b)
    (ha' : IsFloat (scaledDown a k)) :
    (IsFloat (scaledDown b k) → RunScaled k (add a b) (add (scaledDown a k) (scaledDown b k))) ∧
    (IsFloat (scaledDown b k) → RunScaled k (sub a b) (sub (scaledDown a k) (scaledDown b k))) ∧
    ((2 : ℚ) ^ 223 * (10 : ℚ) ^ i32Min ≤ |a.val * b.val * (10 : ℚ) ^ (-(k : ℤ))| →
      RunScaled k (mul a b) (mul (scaledDown a k) b)) ∧
    (b.val ≠ 0 → (2 : ℚ) ^ 223 * (10 : ℚ) ^ i32Min ≤ |a.val / b.val * (10 : ℚ) ^ (-(k : ℤ))| →
      RunScaled k (div a b) (div (scaledDown a k) b)) := by
  have hpos := ten_zpow_pos (-(k : ℤ))
  -- What is large enough on the smaller scale is on the larger one.
  have hlarge : ∀ q : ℚ, (2 : ℚ) ^ 223 * (10 : ℚ) ^ i32Min ≤ |q * (10 : ℚ) ^ (-(k : ℤ))| →
      Kept q ∧ Kept (q * (10 : ℚ) ^ (-(k : ℤ))) := by
    intro q hq
    refine ⟨Or.inr (hq.trans ?_), Or.inr hq⟩
    rw [abs_mul, abs_of_pos hpos]
    exact mul_le_of_le_one_right (abs_nonneg q) (ten_zpow_neg_le_one k)
  refine ⟨?_, ?_, ?_, ?_⟩
  · intro hb'
    apply runScaled_of_rounds (meets_add ha.isOperand hb.isOperand)
      (meets_add ha'.isOperand hb'.isOperand)
    · rw [scaledDown_val, scaledDown_val, add_mul]
    · exact Or.inl (exists_multiple_of_sum ha hb)
    · exact Or.inl (exists_multiple_of_sum ha' hb')
  · intro hb'
    apply runScaled_of_rounds (meets_sub ha hb) (meets_sub ha' hb')
    · rw [scaledDown_val, scaledDown_val, sub_mul]
    · exact Or.inl (exists_multiple_of_difference ha hb)
    · exact Or.inl (exists_multiple_of_difference ha' hb')
  · intro hq
    rcases hlarge _ hq with ⟨hkept, hkept'⟩
    have hval : (scaledDown a k).val * b.val = a.val * b.val * (10 : ℚ) ^ (-(k : ℤ)) := by
      rw [scaledDown_val]
      ring
    rw [← hval] at hkept'
    exact runScaled_of_rounds (meets_mul ha hb) (meets_mul ha' hb) hval hkept hkept'
  · intro h0 hq
    have hb0 : b.c ≠ 0 := fun hc => h0 (val_eq_zero_iff.2 hc)
    rcases hlarge _ hq with ⟨hkept, hkept'⟩
    have hval : (scaledDown a k).val / b.val = a.val / b.val * (10 : ℚ) ^ (-(k : ℤ)) := by
      rw [scaledDown_val]
      ring
    rw [← hval] at hkept'
    exact runScaled_of_rounds (meets_div ha hb hb0) (meets_div ha' hb hb0) hval hkept hkept'

/-- Ten and three and a third, to the cent, and a thousandth of both. -/
theorem operations_scale_thirds : RunScaled 3 (add ⟨1, 1⟩ ⟨333, -2⟩) (add ⟨1, -2⟩ ⟨333, -5⟩) :=
  (operations_scale ⟨1, 1⟩ ⟨333, -2⟩ 3 ⟨by decide, by decide, by decide⟩
    ⟨by decide, by decide, by decide⟩ ⟨by decide, by decide, by decide⟩).1
    ⟨by decide, by decide, by decide⟩

end Reference
end RainFloat
