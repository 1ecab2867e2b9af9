import Mathlib.Data.Rat.Floor
import RainFloat.Reference.Value
import RainFloat.Reference.Pack

/-!
# Rounding — `pack` rounds once, towards zero

The specification is about rational numbers.  `Representable` is the set of Float values,
`AnyExponent` the same coefficients with the exponent left free, and rounding is truncation into
these sets.

* `meets_coefficientAt`: one candidate is the best value of its exponent;
* `meets_nearestWithin`: the candidates tried contain the best value of the whole exponent range;
* `meets_pack`, `meets_arithmetic`: the outcome of `pack` is the rounding `Packs` and `Rounds` say.
-/

namespace RainFloat
namespace Reference

open Foundation Dec

/-! ## The values a Float can take -/

/-- The values `c × 10^e` of an int224 coefficient and an int32 exponent. -/
def Representable : Set ℚ :=
  {q | ∃ c e : ℤ, fitsInt224 c = true ∧ i32Min ≤ e ∧ e ≤ i32Max ∧ q = (c : ℚ) * (10 : ℚ) ^ e}

/-- The values `c × 10^e` of an int224 coefficient and any exponent. -/
def AnyExponent : Set ℚ :=
  {q | ∃ c e : ℤ, fitsInt224 c = true ∧ q = (c : ℚ) * (10 : ℚ) ^ e}

/-- A decimal in the shape of a Float. -/
structure IsFloat (x : Dec) : Prop where
  coefficient : fitsInt224 x.c = true
  exponent_ge : i32Min ≤ x.e
  exponent_le : x.e ≤ i32Max

@[simp] theorem fitsInt224_iff {c : ℤ} : fitsInt224 c = true ↔ int224Min ≤ c ∧ c ≤ int224Max := by
  simp [fitsInt224]

theorem representable_eq :
    Representable = radixGrids 10 int224Min int224Max (Set.Icc i32Min i32Max) := by
  ext q
  simp only [Representable, radixGrids, radixGrid, fitsInt224_iff, Set.mem_ofPred_eq, Set.mem_Icc,
    Nat.cast_ofNat]
  constructor
  · rintro ⟨c, e, ⟨hc, hc'⟩, he, he', rfl⟩
    exact ⟨e, ⟨he, he'⟩, c, hc, hc', rfl⟩
  · rintro ⟨e, ⟨he, he'⟩, c, hc, hc', rfl⟩
    exact ⟨c, e, ⟨hc, hc'⟩, he, he', rfl⟩

theorem anyExponent_eq : AnyExponent = radixGrids 10 int224Min int224Max Set.univ := by
  ext q
  simp only [AnyExponent, radixGrids, radixGrid, fitsInt224_iff, Set.mem_ofPred_eq, Set.mem_univ,
    true_and, Nat.cast_ofNat]
  constructor
  · rintro ⟨c, e, ⟨hc, hc'⟩, rfl⟩
    exact ⟨e, c, hc, hc', rfl⟩
  · rintro ⟨e, c, hc, hc', rfl⟩
    exact ⟨c, e, ⟨hc, hc'⟩, rfl⟩

theorem exists_truncatesTo_anyExponent (q : ℚ) : ∃ u, TruncatesTo AnyExponent q u := by
  rw [anyExponent_eq]
  exact exists_truncatesTo_radixGrids (p := 68) (by norm_num) (by norm_num) (by decide) (by decide)
    (by decide) (by decide) q

theorem representable_subset : Representable ⊆ AnyExponent := by
  rintro q ⟨c, e, hc, -, -, rfl⟩
  exact ⟨c, e, hc, rfl⟩

theorem IsFloat.val_mem {x : Dec} (h : IsFloat x) : x.val ∈ Representable :=
  ⟨x.c, x.e, h.coefficient, h.exponent_ge, h.exponent_le, rfl⟩

theorem isFloat_zero : IsFloat zero := by
  refine ⟨?_, ?_, ?_⟩ <;> decide

theorem int224Min_neg : int224Min < 0 := by
  decide

theorem int224Max_pos : 0 < int224Max := by
  decide

/-- An int224 has at most 68 digits. -/
theorem digits_le_of_fits {c : ℤ} (h : int224Min ≤ c ∧ c ≤ int224Max) : digits c ≤ 68 := by
  apply digits_le
  unfold int224Min int224Max at h
  have : (10 : ℕ) ^ 68 > 2 ^ 223 := by norm_num
  omega

theorem IsFloat.digits_le {x : Dec} (h : IsFloat x) : digits x.c ≤ 68 :=
  digits_le_of_fits (fitsInt224_iff.1 h.coefficient)

theorem IsFloat.i64Safe {x : Dec} (h : IsFloat x) : x.I64Safe := by
  have h1 := h.exponent_ge
  have h2 := h.exponent_le
  have h3 := h.digits_le
  unfold i32Min at h1
  unfold i32Max at h2
  unfold I64Safe
  omega

/-! ## What the outcomes of `pack` mean -/

/-- The value of greatest magnitude not exceeding `q`, with any exponent, is out of reach. -/
def BeyondExtremes (q : ℚ) : Prop :=
  ∃ u, TruncatesTo AnyExponent q u ∧ (maxPositive.val < u ∨ u < minNegative.val)

/-- The outcome of packing a decimal of value `q`. -/
def Packs (q : ℚ) : Packed → Prop
  | .value v lossless =>
      ¬ BeyondExtremes q ∧ (q ≠ 0 → v.val ≠ 0) ∧ IsFloat v ∧ TruncatesTo Representable q v.val ∧
        (lossless = true ↔ v.val = q)
  | .underflow => ¬ BeyondExtremes q ∧ q ≠ 0 ∧ |q| < (10 : ℚ) ^ i32Min
  | .overflow => BeyondExtremes q

/-- The outcome of rounding `q` to a Float, as the operations return it. -/
def Rounds (q : ℚ) : Except RefError Dec → Prop
  | .ok v =>
      ¬ BeyondExtremes q ∧ (q ≠ 0 → v.val ≠ 0) ∧ IsFloat v ∧ TruncatesTo Representable q v.val
  | .error .exponentUnderflow => ¬ BeyondExtremes q ∧ q ≠ 0 ∧ |q| < (10 : ℚ) ^ i32Min
  | .error .exponentOverflow => BeyondExtremes q
  | .error _ => False

/-! ## One candidate -/

section Specs

variable {T : Panic → Prop}

/-- The cap on scaling up is harmless: past it the coefficient is clamped anyway. -/
theorem clamp_scaled (c : ℤ) {k : ℕ} (hk : 80 ≤ k) :
    max int224Min (min (c * pow10 80) int224Max) = max int224Min (min (c * pow10 k) int224Max) := by
  have hbig : int224Max < pow10 80 := by decide
  have hbig' : -pow10 80 < int224Min := by decide
  have hle : pow10 80 ≤ pow10 k := pow_le_pow_right₀ (by norm_num) hk
  have hlo := int224Min_neg
  have hhi := int224Max_pos
  rcases lt_trichotomy c 0 with hc | rfl | hc
  · have h1 : c * pow10 80 ≤ -pow10 80 := by nlinarith
    have h2 : c * pow10 k ≤ -pow10 80 := by nlinarith
    omega
  · simp
  · have h1 : pow10 80 ≤ c * pow10 80 := by nlinarith
    have h2 : pow10 80 ≤ c * pow10 k := by nlinarith
    omega

/-- What a candidate coefficient is: the best int224 at its exponent. -/
def IsCandidate (x : Dec) (f c : ℤ) : Prop :=
  (int224Min ≤ c ∧ c ≤ int224Max) ∧
    TruncatesTo (radixGrid 10 int224Min int224Max f) x.val ((c : ℚ) * (10 : ℚ) ^ f)

/-- Clamping a truncated coefficient gives a candidate. -/
theorem isCandidate_clamp {x : Dec} {f n : ℤ} (hn : (n : ℚ) * (10 : ℚ) ^ f ∈ Set.uIcc 0 x.val)
    (hmax : ∀ m : ℤ, (m : ℚ) * (10 : ℚ) ^ f ∈ Set.uIcc 0 x.val → |m| ≤ |n|) :
    IsCandidate x f (max int224Min (min n int224Max)) := by
  have hlo := int224Min_neg
  have hhi := int224Max_pos
  refine ⟨by omega, ?_⟩
  simpa using truncatesTo_clamp (b := 10) (x := x.val) (by norm_num) hlo.le hhi.le
    (by simpa using hn) (by simpa using hmax)

theorem meets_coefficientAt {x : Dec} {f : ℤ}
    (h : T .overflow ∨ I64 (f - x.e) ∧ I64 (x.e - f)) :
    Meets T (coefficientAt x f) (IsCandidate x f) := by
  have hlo := int224Min_neg
  have hhi := int224Max_pos
  unfold coefficientAt
  split
  · -- Digits are shed: a truncating division.
    rename_i hf
    refine (meets_i64 (h.imp_right And.left)).bind_eq ?_
    refine Meets.bind_eq rfl ?_
    refine (meets_clamp (by omega)).mono ?_
    rintro _ rfl
    have hd : pow10 (f - x.e).toNat ≠ 0 := (pow10_pos _).ne'
    have hval : x.val = (x.c : ℚ) / (pow10 (f - x.e).toNat : ℤ) * (10 : ℚ) ^ f := by
      have hk : ((f - x.e).toNat : ℤ) = f - x.e := by omega
      rw [pow10_cast, hk, val, div_mul_eq_mul_div, eq_div_iff (ten_zpow_pos _).ne', mul_assoc,
        ← ten_zpow_add]
      congr 2
      omega
    rw [shed_eq]
    have := tdiv_mul_mem_uIcc x.c hd (ten_zpow_pos f) hval
    exact isCandidate_clamp this.1 this.2
  · -- The coefficient is scaled up, by 80 digits at most.
    rename_i hf
    refine (meets_i64 (h.imp_right And.right)).bind_eq ?_
    refine Meets.bind_eq rfl ?_
    refine (meets_clamp (by omega)).mono ?_
    rintro _ rfl
    have hclamp : max int224Min (min (x.c * pow10 (min (x.e - f).toNat 80)) int224Max) =
        max int224Min (min (x.c * pow10 (x.e - f).toNat) int224Max) := by
      rcases le_total (x.e - f).toNat 80 with hk | hk
      · rw [min_eq_left hk]
      · rw [min_eq_right hk, clamp_scaled x.c hk]
    rw [hclamp]
    have hval := aligned_mul_zpow (x := x) (e := f) (by omega)
    refine isCandidate_clamp (hval ▸ Set.right_mem_uIcc) fun m hm => ?_
    -- The scaled coefficient is exact, so nothing between zero and `x` exceeds it.
    have habs := abs_le_of_mem_uIcc_zero hm
    rw [← hval, ← abs_cast_mul_zpow, ← abs_cast_mul_zpow] at habs
    exact_mod_cast le_of_mul_le_mul_right habs (ten_zpow_pos f)

/-! ## The loop over candidates -/

/-- Where the exponents of a search lie when its `i64` arithmetic is safe. -/
def SearchSafe (x : Dec) (lo hi : ℤ) : Prop :=
  -1152921504606846976 ≤ x.e ∧ x.e ≤ 1152921504606846976 ∧ digits x.c ≤ 1152921504606846976 ∧
    -2305843009213693952 ≤ lo ∧ hi ≤ 2305843009213693952

/-- The window of exponents tried lies within the `i64` range. -/
theorem SearchSafe.i64_window {x : Dec} {lo hi : ℤ} (h : SearchSafe x lo hi) {k : ℤ} (hk : 0 ≤ k)
    (hk' : k ≤ 70) : I64 (x.e + digits x.c - k) := by
  unfold SearchSafe at h
  omega

/-- The accumulator of the loop: no farther than `x`, and either still zero or a candidate of an
exponent in range. -/
structure Searched (x : Dec) (lo hi : ℤ) (best : Dec) : Prop where
  mem : best.val ∈ Set.uIcc 0 x.val
  fits : int224Min ≤ best.c ∧ best.c ≤ int224Max
  range : best = zero ∨ lo ≤ best.e ∧ best.e ≤ hi

theorem searched_zero (x : Dec) (lo hi : ℤ) : Searched x lo hi zero :=
  ⟨by simp, by decide, Or.inl rfl⟩

theorem Searched.i64Safe {x : Dec} {lo hi : ℤ} {best : Dec} (h : Searched x lo hi best)
    (hs : SearchSafe x lo hi) : best.I64Safe := by
  have hd := digits_le_of_fits h.fits
  unfold SearchSafe at hs
  unfold I64Safe
  rcases h.range with rfl | h
  · simp [zero]
  · omega

/-- A search among the exponents of Floats can only find a Float. -/
theorem Searched.isFloat {x best : Dec} (h : Searched x i32Min i32Max best) : IsFloat best := by
  rcases h.range with rfl | hr
  · exact isFloat_zero
  · exact ⟨fitsInt224_iff.2 h.fits, hr.1, hr.2⟩

/-- `best` reaches at least as far as every grid value at the exponent `f`, clamped. -/
def Covers (x : Dec) (lo hi : ℤ) (best : Dec) (f : ℤ) : Prop :=
  ∀ z ∈ radixGrid 10 int224Min int224Max (max lo (min f hi)), z ∈ Set.uIcc 0 x.val →
    |z| ≤ |best.val|

/-- One turn of the loop covers one more exponent and loses nothing. -/
theorem meets_tryExponent {x : Dec} {lo hi : ℤ} (hle : lo ≤ hi) {best : Dec} {f : ℤ}
    (hbest : Searched x lo hi best) (h : T .overflow ∨ SearchSafe x lo hi) :
    Meets T (tryExponent x lo hi best f) fun r =>
      Searched x lo hi r ∧ |best.val| ≤ |r.val| ∧ Covers x lo hi r f := by
  refine (meets_clamp hle).bind_eq ?_
  have hrange : lo ≤ max lo (min f hi) ∧ max lo (min f hi) ≤ hi := by omega
  generalize hg : max lo (min f hi) = g at hrange
  refine (meets_coefficientAt (h.imp_right fun hs => ?_)).bind ?_
  · unfold SearchSafe at hs
    constructor <;> constructor <;> omega
  rintro c ⟨hfits, htrunc⟩
  have hcand : Searched x lo hi ⟨c, g⟩ := ⟨htrunc.2.1, hfits, Or.inr hrange⟩
  refine (meets_cmpValue (h.imp_right fun hs =>
    ⟨i64Safe_abs.2 (hcand.i64Safe hs), i64Safe_abs.2 (hbest.i64Safe hs)⟩)).bind_eq ?_
  rw [Meets.pure_iff, val_abs, val_abs]
  -- The candidate is the best of its exponent, so reaching as far as it covers the exponent.
  have hcover : ∀ r : Dec, |(⟨c, g⟩ : Dec).val| ≤ |r.val| → Covers x lo hi r f := by
    intro r hr z hz hzx
    rw [hg] at hz
    exact (htrunc.2.2 z hz hzx).trans hr
  split
  · rename_i hgt
    have := compare_gt_iff_gt.1 hgt
    exact ⟨hcand, this.le, hcover _ le_rfl⟩
  · rename_i hgt
    rw [compare_gt_iff_gt, not_lt] at hgt
    exact ⟨hbest, le_rfl, hcover _ hgt⟩

theorem mem_rangeInclusive {lo hi f : ℤ} (h : lo ≤ f ∧ f ≤ hi) : f ∈ rangeInclusive lo hi := by
  rw [rangeInclusive, List.mem_map]
  exact ⟨(f - lo).toNat, by rw [List.mem_range]; omega, by omega⟩

/-- The exponent at which a nonzero decimal turns lies in the window that is searched. -/
theorem exists_turning {x : Dec} (hx : x.c ≠ 0) :
    ∃ t, x.e + digits x.c - 68 ≤ t ∧ t ≤ x.e + digits x.c - 67 ∧
      Full 10 int224Min int224Max x.val t ∧ Saturated 10 int224Min int224Max x.val (t - 1) := by
  -- Int224 bounds hold 67 digits in full and part of the 68th.
  have hb := val_abs_bounds hx
  have hhi : ((10 : ℕ) : ℤ) ^ (68 - 1) ≤ int224Max ∧ int224Max ≤ ((10 : ℕ) : ℤ) ^ 68 := by decide
  have hlo : int224Min ≤ -((10 : ℕ) : ℤ) ^ (68 - 1) ∧ -((10 : ℕ) : ℤ) ^ 68 ≤ int224Min := by decide
  rcases exists_turning_exponent (b := 10) (x := x.val) (by norm_num) (by norm_num) hhi.1 hhi.2
    hlo.1 hlo.2 (by simpa using hb.1) (by simpa using hb.2) with ⟨t, h1, h2, h3, h4⟩
  push_cast at h1 h2
  exact ⟨t, h1, by omega, h3, h4⟩

/-- The search finds the truncation of `x` to the exponents in `[lo, hi]`. -/
theorem meets_nearestWithin {x : Dec} (hx : x.c ≠ 0) {lo hi : ℤ} (hle : lo ≤ hi)
    (h : T .overflow ∨ SearchSafe x lo hi) :
    Meets T (nearestWithin x lo hi) fun best =>
      Searched x lo hi best ∧
        TruncatesTo (radixGrids 10 int224Min int224Max (Set.Icc lo hi)) x.val best.val := by
  have hdp := digits_pos hx
  have hi64 : ∀ k : ℤ, 0 ≤ k → k ≤ 70 → T .overflow ∨ I64 (x.e + digits x.c - k) :=
    fun k hk hk' => h.imp_right fun hs => hs.i64_window hk hk'
  unfold nearestWithin
  refine (meets_i64 (by simpa using hi64 0 le_rfl (by norm_num))).bind_eq ?_
  refine (meets_i64 (hi64 70 (by norm_num) le_rfl)).bind_eq ?_
  refine (meets_i64 (hi64 66 (by norm_num) (by norm_num))).bind_eq ?_
  generalize hL : rangeInclusive (x.e + digits x.c - 70) (x.e + digits x.c - 66) ++ [lo, hi] = L
  -- Invariant: the accumulator covers every exponent already tried.
  have hstep : ∀ (done : List ℤ) (f : ℤ) (best : Dec),
      (Searched x lo hi best ∧ ∀ g ∈ done, Covers x lo hi best g) →
        Meets T (tryExponent x lo hi best f) fun r =>
          Searched x lo hi r ∧ ∀ g ∈ done ++ [f], Covers x lo hi r g := by
    rintro done f best ⟨hbest, hcov⟩
    refine (meets_tryExponent hle hbest h).mono ?_
    rintro r ⟨hr, hge, hf⟩
    refine ⟨hr, fun g hg => ?_⟩
    rcases List.mem_append.1 hg with hg | hg
    · exact fun z hz hzx => (hcov g hg z hz hzx).trans hge
    · rw [List.mem_singleton.1 hg]
      exact hf
  have hloop : Meets T (L.foldlM (tryExponent x lo hi) zero) fun best =>
      Searched x lo hi best ∧ ∀ f ∈ L, Covers x lo hi best f := by
    simpa using Meets.foldlM _ hstep L [] zero ⟨searched_zero x lo hi, by simp⟩
  refine hloop.mono ?_
  rintro best ⟨hbest, hcov⟩
  refine ⟨hbest, ?_, hbest.mem, ?_⟩
  · -- The accumulator starts at zero, which every grid holds.
    rcases hbest.range with rfl | hr
    · exact ⟨lo, ⟨le_rfl, hle⟩, 0, by decide, by decide, by simp⟩
    · exact ⟨best.e, hr, best.c, hbest.fits.1, hbest.fits.2, by simp [val]⟩
  · -- Whatever the exponent of a grid value, one of two exponents in the list does as well.
    rintro z ⟨f, hf, hz⟩ hzx
    rcases exists_turning hx with ⟨t, ht, ht', hfull, hsat⟩
    rcases dominated_by_turning (by norm_num) int224Min_neg int224Max_pos hfull hsat hf.1 hf.2 hz
      hzx with ⟨g, hg, z', hz', hzx', hle'⟩
    refine hle'.trans ?_
    rcases hg with rfl | rfl
    · exact hcov t (by rw [← hL]; exact List.mem_append_left _ (mem_rangeInclusive (by omega)))
        z' hz' hzx'
    · exact hcov (t - 1)
        (by rw [← hL]; exact List.mem_append_left _ (mem_rangeInclusive (by omega))) z' hz' hzx'

/-! ## `pack` -/

/-- Exponent and digit count, within `2^60`, leave room for the `i64` arithmetic of `pack`. -/
def PackSafe (x : Dec) : Prop :=
  -1152921504606846976 ≤ x.e ∧ x.e ≤ 1152921504606846976 ∧ digits x.c ≤ 1152921504606846976

namespace PackSafe

variable {x : Dec}

theorem i64Safe (h : PackSafe x) : x.I64Safe := by
  unfold PackSafe at h
  unfold I64Safe
  omega

/-- The first search of `pack` is safe. -/
theorem searchSafe_window (h : PackSafe x) :
    SearchSafe x (x.e + digits x.c - 70) (x.e + digits x.c - 66) := by
  unfold PackSafe at h
  unfold SearchSafe
  omega

/-- So is the second one. -/
theorem searchSafe_floats (h : PackSafe x) : SearchSafe x i32Min i32Max :=
  ⟨h.1, h.2.1, h.2.2, by decide, by decide⟩

end PackSafe

theorem maxPositive_i64Safe : maxPositive.I64Safe := by
  refine IsFloat.i64Safe ⟨?_, ?_, ?_⟩ <;> decide

theorem minNegative_i64Safe : minNegative.I64Safe := by
  refine IsFloat.i64Safe ⟨?_, ?_, ?_⟩ <;> decide

theorem meets_beyondExtremes {u : Dec} (h : T .overflow ∨ u.I64Safe) :
    Meets T (beyondExtremes u) fun r =>
      r = true ↔ maxPositive.val < u.val ∨ u.val < minNegative.val := by
  refine (meets_cmpValue (h.imp_right fun hs => ⟨hs, maxPositive_i64Safe⟩)).bind_eq ?_
  split
  · rename_i hgt
    simpa using Or.inl (compare_gt_iff_gt.1 hgt)
  · rename_i hgt
    rw [compare_gt_iff_gt] at hgt
    refine (meets_cmpValue (h.imp_right fun hs => ⟨hs, minNegative_i64Safe⟩)).bind_eq ?_
    simp [compare_lt_iff_lt, hgt]

/-- A power of ten no larger than `q` lies, with the sign of `q`, between zero and `q`. -/
theorem exists_unit_mem {q : ℚ} {e : ℤ} (hq : (10 : ℚ) ^ e ≤ |q|) :
    ∃ s : ℤ, fitsInt224 s = true ∧ (s : ℚ) * (10 : ℚ) ^ e ∈ Set.uIcc 0 q ∧
      |(s : ℚ) * (10 : ℚ) ^ e| = (10 : ℚ) ^ e := by
  have hpos := ten_zpow_pos e
  rcases le_total 0 q with h0 | h0
  · rw [abs_of_nonneg h0] at hq
    refine ⟨1, by decide, ?_, ?_⟩
    · rw [Int.cast_one, one_mul, mem_uIcc_zero_of_nonneg h0]
      exact ⟨hpos.le, hq⟩
    · rw [Int.cast_one, one_mul, abs_of_pos hpos]
  · rw [abs_of_nonpos h0] at hq
    refine ⟨-1, by decide, ?_, ?_⟩
    · rw [Int.cast_neg, Int.cast_one, neg_one_mul, mem_uIcc_zero_of_nonpos h0]
      constructor <;> linarith
    · rw [Int.cast_neg, Int.cast_one, neg_one_mul, abs_neg, abs_of_pos hpos]

/-- The smallest magnitudes a Float can have, on either side of zero. -/
theorem smallest_mem {q : ℚ} (hq : (10 : ℚ) ^ i32Min ≤ |q|) :
    ∃ z ∈ Representable, z ∈ Set.uIcc 0 q ∧ |z| = (10 : ℚ) ^ i32Min := by
  rcases exists_unit_mem hq with ⟨s, hs, hmem, habs⟩
  exact ⟨_, ⟨s, i32Min, hs, le_rfl, by decide, rfl⟩, hmem, habs⟩

/-- A nonzero Float value is at least the smallest power of ten in magnitude. -/
theorem smallest_le {z : ℚ} (hz : z ∈ Representable) (hz0 : z ≠ 0) : (10 : ℚ) ^ i32Min ≤ |z| := by
  rcases hz with ⟨c, e, -, he, -, rfl⟩
  have hc : c ≠ 0 := by
    rintro rfl
    simp at hz0
  have h1 : (1 : ℚ) ≤ ((|c| : ℤ) : ℚ) := by exact_mod_cast Int.one_le_abs hc
  have h2 := ten_zpow_le.2 he
  have h3 := ten_zpow_pos i32Min
  rw [← abs_cast_mul_zpow]
  nlinarith

theorem mem_representable_bounds {z : ℚ} (hz : z ∈ Representable) :
    minNegative.val ≤ z ∧ z ≤ maxPositive.val := by
  rcases hz with ⟨c, e, hc, -, he, rfl⟩
  rw [fitsInt224_iff] at hc
  have h1 : (int224Min : ℚ) ≤ c := by exact_mod_cast hc.1
  have h2 : (c : ℚ) ≤ int224Max := by exact_mod_cast hc.2
  have h3 : (int224Min : ℚ) < 0 := by exact_mod_cast int224Min_neg
  have h4 : (0 : ℚ) < int224Max := by exact_mod_cast int224Max_pos
  have hpos := ten_zpow_pos e
  have hle := ten_zpow_le.2 he
  constructor <;> dsimp only [val, minNegative, maxPositive] <;> nlinarith

/-- Truncation to a Float gives zero exactly below the smallest power of ten. -/
theorem truncatesTo_representable_eq_zero {q v : ℚ} (h : TruncatesTo Representable q v) :
    v = 0 ↔ |q| < (10 : ℚ) ^ i32Min := by
  constructor
  · rintro rfl
    by_contra hge
    rcases smallest_mem (not_lt.1 hge) with ⟨z, hz, hzq, habs⟩
    have := h.2.2 z hz hzq
    rw [habs, abs_zero] at this
    exact absurd this (not_le.2 (ten_zpow_pos i32Min))
  · intro hlt
    by_contra hv
    linarith [smallest_le h.1 hv, h.abs_le]

theorem truncatesTo_zero {S : Set ℚ} {u : ℚ} (h : TruncatesTo S 0 u) : u = 0 := by
  simpa using h.2.1

theorem maxPositive_val_pos : 0 < maxPositive.val :=
  val_pos_iff.2 (by decide)

theorem minNegative_val_neg : minNegative.val < 0 :=
  val_neg_iff.2 (by decide)

theorem not_beyondExtremes_zero : ¬ BeyondExtremes 0 := by
  rintro ⟨u, hu, h⟩
  rw [truncatesTo_zero hu] at h
  rcases h with h | h
  · exact absurd h maxPositive_val_pos.not_gt
  · exact absurd h minNegative_val_neg.not_gt

theorem meets_pack {x : Dec} (h : T .overflow ∨ PackSafe x) : Meets T (pack x) (Packs x.val) := by
  unfold pack
  by_cases hx : x.c = 0
  · rw [if_pos (isZero_iff.2 hx), Meets.pure_iff, val_eq_zero_iff.2 hx]
    refine ⟨not_beyondExtremes_zero, by simp, isFloat_zero, ?_, by simp⟩
    rw [val_zero]
    exact TruncatesTo.of_mem (by simpa using isFloat_zero.val_mem)
  rw [if_neg (by simpa using hx)]
  have hx0 : x.val ≠ 0 := fun h0 => hx (val_eq_zero_iff.1 h0)
  have hsafe := h.imp_right PackSafe.searchSafe_window
  have hi64 : ∀ k : ℤ, 0 ≤ k → k ≤ 70 → T .overflow ∨ I64 (x.e + digits x.c - k) :=
    fun k hk hk' => hsafe.imp_right fun hs => hs.i64_window hk hk'
  refine (meets_i64 (by simpa using hi64 0 le_rfl (by norm_num))).bind_eq ?_
  refine (meets_i64 (hi64 70 (by norm_num) le_rfl)).bind_eq ?_
  refine (meets_i64 (hi64 66 (by norm_num) (by norm_num))).bind_eq ?_
  -- First search: the exponent window that stands for all exponents.
  refine (meets_nearestWithin hx (by omega) hsafe).bind ?_
  rintro u ⟨hu, htrunc⟩
  have hany : TruncatesTo AnyExponent x.val u.val := by
    rcases exists_turning hx with ⟨t, ht, ht', hfull, hsat⟩
    rw [anyExponent_eq]
    exact truncatesTo_univ_of_window (by norm_num) int224Min_neg int224Max_pos hfull hsat
      (by omega) (by omega) htrunc
  refine (meets_beyondExtremes (hsafe.imp_right hu.i64Safe)).bind ?_
  intro beyond hbeyond
  split
  · rename_i hb
    exact ⟨u.val, hany, hbeyond.1 hb⟩
  rename_i hb
  -- The truncation is unique, so the `u` that was compared is the one that counts.
  have hnot : ¬ BeyondExtremes x.val := by
    rintro ⟨u', hu', hout⟩
    rw [hu'.unique hany] at hout
    exact hb (hbeyond.2 hout)
  -- Second search: the exponents a Float has.
  refine (meets_nearestWithin hx (by decide) (h.imp_right PackSafe.searchSafe_floats)).bind ?_
  rintro best ⟨hbest, htrunc'⟩
  rw [← representable_eq] at htrunc'
  have hzero := truncatesTo_representable_eq_zero htrunc'
  split
  · rename_i hz
    rw [isZero_iff, ← val_eq_zero_iff] at hz
    exact ⟨hnot, hx0, hzero.1 hz⟩
  · rename_i hz
    rw [isZero_iff, ← val_eq_zero_iff] at hz
    have hfloat := hbest.isFloat
    refine (meets_eqValue (h.imp_right fun hs => ⟨hfloat.i64Safe, hs.i64Safe⟩)).bind ?_
    intro lossless hl
    exact ⟨hnot, fun _ => hz, hfloat, htrunc', hl⟩

/-- Rounding a decimal gives the rounding of its value. -/
theorem meets_arithmetic {x : Dec} (h : T .overflow ∨ PackSafe x) :
    Meets T (arithmetic x) (Rounds x.val) := by
  refine (meets_pack h).bind ?_
  intro p hp
  cases p with
  | value v lossless =>
      exact ⟨hp.1, hp.2.1, hp.2.2.1, hp.2.2.2.1⟩
  | underflow =>
      exact hp
  | overflow =>
      exact hp

end Specs

theorem rounds_zero : Rounds 0 (.ok zero) :=
  ⟨not_beyondExtremes_zero, by simp, isFloat_zero,
    val_zero ▸ TruncatesTo.of_mem isFloat_zero.val_mem⟩

/-! ## Rounding depends only on the Float values below -/

theorem beyondExtremes_congr {q q' : ℚ} (h : SameBelow AnyExponent q q') :
    BeyondExtremes q ↔ BeyondExtremes q' := by
  unfold BeyondExtremes
  simp only [TruncatesTo.congr h]

theorem lt_smallest_congr {q q' : ℚ} (h : SameBelow AnyExponent q q') :
    |q| < (10 : ℚ) ^ i32Min ↔ |q'| < (10 : ℚ) ^ i32Min := by
  -- The smallest Float is below both numbers or below neither.
  have key : ∀ {p p' : ℚ}, SameBelow AnyExponent p p' → (10 : ℚ) ^ i32Min ≤ |p| →
      (10 : ℚ) ^ i32Min ≤ |p'| := by
    intro p p' hpp hp
    rcases smallest_mem hp with ⟨z, hz, hzp, habs⟩
    rw [← habs]
    exact abs_le_of_mem_uIcc_zero ((hpp z (representable_subset hz)).1 hzp)
  rw [← not_le, ← not_le, not_iff_not]
  exact ⟨key h, key h.symm⟩

/-- Numbers with the same Float values below them round alike. -/
theorem rounds_congr {q q' : ℚ} (h : SameBelow AnyExponent q q') (h0 : q = 0 ↔ q' = 0)
    {r : Except RefError Dec} (hr : Rounds q r) : Rounds q' r := by
  have hb := beyondExtremes_congr h
  have hu := lt_smallest_congr h
  match r, hr with
  | .ok v, ⟨h1, h2, h3, h4⟩ =>
      exact ⟨fun hq => h1 (hb.2 hq), fun hq => h2 fun hq0 => hq (h0.1 hq0), h3,
        (TruncatesTo.congr (h.mono representable_subset)).1 h4⟩
  | .error .exponentUnderflow, ⟨h1, h2, h3⟩ =>
      exact ⟨fun hq => h1 (hb.2 hq), fun hq => h2 (h0.2 hq), hu.1 h3⟩
  | .error .exponentOverflow, h1 => exact hb.1 h1

/-- The same outcome: Floats of the same value, or the same error. -/
def SameOutcome : Except RefError Dec → Except RefError Dec → Prop
  | .ok v, .ok w => v.val = w.val
  | .error e, .error f => e = f
  | _, _ => False

/-- A rational rounds in one way only. -/
theorem Rounds.unique {q : ℚ} {r r' : Except RefError Dec} (h : Rounds q r) (h' : Rounds q r') :
    SameOutcome r r' := by
  -- A value, an underflow and an overflow exclude each other.
  match r, h, r', h' with
  | .ok v, ⟨_, _, _, h4⟩, .ok w, ⟨_, _, _, h4'⟩ => exact h4.unique h4'
  | .ok v, ⟨_, h2, _, h4⟩, .error .exponentUnderflow, ⟨_, h2', h3'⟩ =>
      exact h2 h2' ((truncatesTo_representable_eq_zero h4).2 h3')
  | .ok v, ⟨h1, _, _, _⟩, .error .exponentOverflow, h1' => exact h1 h1'
  | .error .exponentUnderflow, ⟨_, h2, h3⟩, .ok w, ⟨_, h2', _, h4'⟩ =>
      exact h2' h2 ((truncatesTo_representable_eq_zero h4').2 h3)
  | .error .exponentUnderflow, _, .error .exponentUnderflow, _ => exact rfl
  | .error .exponentUnderflow, ⟨h1, _, _⟩, .error .exponentOverflow, h1' => exact (h1 h1').elim
  | .error .exponentOverflow, h1, .ok w, ⟨h1', _, _, _⟩ => exact h1' h1
  | .error .exponentOverflow, h1, .error .exponentUnderflow, ⟨h1', _, _⟩ => exact (h1' h1).elim
  | .error .exponentOverflow, _, .error .exponentOverflow, _ => exact rfl

/-! ## Rounding in terms of sign and magnitude -/

/-- `v` is the element of `S` with the sign of `q` and the greatest magnitude not exceeding
`|q|`. -/
def ClosestWithin (S : Set ℚ) (q v : ℚ) : Prop :=
  v ∈ S ∧ SignType.sign v = SignType.sign q ∧ |v| ≤ |q| ∧
    ∀ z ∈ S, SignType.sign z = SignType.sign q → |z| ≤ |q| → |z| ≤ |v|

theorem closestWithin_of_truncatesTo {S : Set ℚ} {q v : ℚ} (h : TruncatesTo S q v)
    (h0 : q ≠ 0 → v ≠ 0) : ClosestWithin S q v := by
  by_cases hq : q = 0
  · subst hq
    have hv := truncatesTo_zero h
    subst hv
    exact ⟨h.1, rfl, le_rfl, fun z _ _ hz => hz⟩
  · refine ⟨h.1, h.sign_eq (h0 hq), h.abs_le, fun z hz hsign hle => ?_⟩
    -- The sign of `q` keeps zero out.
    have hz0 : z ≠ 0 := by
      rintro rfl
      rw [sign_zero, eq_comm, sign_eq_zero_iff] at hsign
      exact hq hsign
    exact h.2.2 z hz ((mem_uIcc_zero_iff_sign hz0).2 ⟨hsign, hle⟩)

/-- With the exponent free, nothing but zero truncates to zero. -/
theorem truncatesTo_anyExponent_ne_zero {q u : ℚ} (h : TruncatesTo AnyExponent q u) (hq : q ≠ 0) :
    u ≠ 0 := by
  have hpos : 0 < |q| := abs_pos.2 hq
  rcases exists_pow_lt_of_lt_one hpos (by norm_num : (10 : ℚ)⁻¹ < 1) with ⟨n, hn⟩
  have hn' : (10 : ℚ) ^ (-(n : ℤ)) < |q| := by
    simpa [zpow_neg, inv_pow] using hn
  -- Some power of ten fits below `q`, and it is a candidate.
  rcases exists_unit_mem hn'.le with ⟨s, hs, hmem, habs⟩
  have hle := h.2.2 _ ⟨s, -n, hs, rfl⟩ hmem
  rw [habs] at hle
  exact abs_pos.1 ((ten_zpow_pos _).trans_le hle)

theorem maxPositive_mem : maxPositive.val ∈ Representable :=
  IsFloat.val_mem ⟨by decide, by decide, by decide⟩

theorem minNegative_mem : minNegative.val ∈ Representable :=
  IsFloat.val_mem ⟨by decide, by decide, by decide⟩

/-- What lies beyond the extreme Floats is not small. -/
theorem BeyondExtremes.smallest_le {q : ℚ} (h : BeyondExtremes q) : (10 : ℚ) ^ i32Min ≤ |q| := by
  rcases h with ⟨u, hu, hout | hout⟩
  · have h1 := Reference.smallest_le maxPositive_mem maxPositive_val_pos.ne'
    rw [abs_of_pos maxPositive_val_pos] at h1
    linarith [le_abs_self u, hu.abs_le]
  · have h1 := Reference.smallest_le minNegative_mem minNegative_val_neg.ne
    rw [abs_of_neg minNegative_val_neg] at h1
    linarith [neg_abs_le u, hu.abs_le]

/-- `u` lies beyond the extreme Floats. -/
def OutOfReach (u : ℚ) : Prop :=
  maxPositive.val < u ∨ u < minNegative.val

theorem beyondExtremes_iff {q u : ℚ} (h : TruncatesTo AnyExponent q u) :
    BeyondExtremes q ↔ OutOfReach u := by
  constructor
  · rintro ⟨u', hu', hout⟩
    rwa [hu'.unique h] at hout
  · intro hout
    exact ⟨u, h, hout⟩

/-- The value of a Float is within reach. -/
theorem not_beyondExtremes_of_mem {q : ℚ} (h : q ∈ Representable) : ¬ BeyondExtremes q := by
  intro hbeyond
  have hbounds := mem_representable_bounds h
  rcases (beyondExtremes_iff (TruncatesTo.of_mem (representable_subset h))).1 hbeyond with hlt | hlt
  · exact absurd hbounds.2 hlt.not_ge
  · exact absurd hbounds.1 hlt.not_ge

/-- `r` is the single rounding of `q`, spelled out: `u` decides between overflow and a result in
range, and a result is the representable value of the sign of `q` closest to it from below in
magnitude. -/
def RoundsOnce (q : ℚ) (r : Except RefError Dec) : Prop :=
  (∃ u, ClosestWithin AnyExponent q u ∧ (r = .error .exponentOverflow ↔ OutOfReach u)) ∧
  (r = .error .exponentUnderflow ↔ q ≠ 0 ∧ |q| < (10 : ℚ) ^ i32Min) ∧
  (r = .error .exponentOverflow ∨ r = .error .exponentUnderflow ∨ ∃ v, r = .ok v) ∧
  ∀ v, r = .ok v → IsFloat v ∧ ClosestWithin Representable q v.val

theorem Rounds.once {q : ℚ} {r : Except RefError Dec} (h : Rounds q r) : RoundsOnce q r := by
  rcases exists_truncatesTo_anyExponent q with ⟨u, hu⟩
  have hclosest := closestWithin_of_truncatesTo hu fun hq => truncatesTo_anyExponent_ne_zero hu hq
  have hout := beyondExtremes_iff hu
  match r, h with
  | .ok v, ⟨h1, h2, h3, h4⟩ =>
      refine ⟨⟨u, hclosest, by simpa using hout.not.1 h1⟩, ?_, by simp, ?_⟩
      · simpa using fun hq => le_of_not_gt fun hlt =>
          h2 hq ((truncatesTo_representable_eq_zero h4).2 hlt)
      · rintro w ⟨⟩
        exact ⟨h3, closestWithin_of_truncatesTo h4 h2⟩
  | .error .exponentUnderflow, ⟨h1, h2, h3⟩ =>
      exact ⟨⟨u, hclosest, by simpa using hout.not.1 h1⟩, by simp [h2, h3], by simp, by simp⟩
  | .error .exponentOverflow, h1 =>
      have hge := BeyondExtremes.smallest_le h1
      exact ⟨⟨u, hclosest, by simpa using hout.1 h1⟩, by simp [hge], by simp, by simp⟩

/-! ## `pack`, read back -/

/-- `pack` rounds every decimal correctly: for a nonzero `x`, `u` decides between overflow and a
result in range, and the result is the representable value of the sign of `x` closest to it from
below in magnitude.  An overflowing `i64` exponent is the only way for `pack` not to return, and
within `PackSafe` there is none. -/
theorem pack_rounds_correctly (x : Dec) :
    (pack x = .error .overflow ∨ ∃ p, pack x = .ok p) ∧
    (PackSafe x → ∃ p, pack x = .ok p) ∧
    (x.val = 0 → pack x = .ok (.value zero true)) ∧
    ∀ p, pack x = .ok p → x.val ≠ 0 →
      ∃ u, ClosestWithin AnyExponent x.val u ∧
        (p = .overflow ↔ OutOfReach u) ∧
        (p = .underflow ↔ ¬ OutOfReach u ∧ |x.val| < (10 : ℚ) ^ i32Min) ∧
        ((∃ v b, p = .value v b) ↔ ¬ OutOfReach u ∧ ¬ |x.val| < (10 : ℚ) ^ i32Min) ∧
        ∀ v b, p = .value v b →
          IsFloat v ∧ ClosestWithin Representable x.val v.val ∧
            (b = true ↔ v.val = x.val) ∧ (b = true ↔ x.val ∈ Representable) := by
  have hpack := meets_pack (T := (· = Panic.overflow)) (x := x) (Or.inl rfl)
  refine ⟨?_, ?_, ?_, ?_⟩
  · rcases hpack.stops_or_returns with h | ⟨p, hp, -⟩
    · exact Or.inl h
    · exact Or.inr ⟨p, hp⟩
  · intro hs
    rcases (meets_pack (Or.inr hs)).returns with ⟨p, hp, -⟩
    exact ⟨p, hp⟩
  · intro h0
    rw [pack, if_pos (isZero_iff.2 (val_eq_zero_iff.1 h0))]
    rfl
  · intro p hp h0
    have hspec := hpack.of_eq_ok hp
    rcases exists_truncatesTo_anyExponent x.val with ⟨u, hu⟩
    have hout := beyondExtremes_iff hu
    refine ⟨u, closestWithin_of_truncatesTo hu fun hq => truncatesTo_anyExponent_ne_zero hu hq, ?_⟩
    cases p with
    | value v b =>
        rcases hspec with ⟨h1, h2, h3, h4, h5⟩
        rw [hout] at h1
        have hge : ¬ |x.val| < (10 : ℚ) ^ i32Min := fun hlt =>
          h2 h0 ((truncatesTo_representable_eq_zero h4).2 hlt)
        refine ⟨by simp [h1], by simp [hge], by simp [h1, hge], ?_⟩
        rintro _ _ ⟨⟩
        refine ⟨h3, closestWithin_of_truncatesTo h4 h2, h5, h5.trans ⟨fun hv => ?_, fun hx => ?_⟩⟩
        · exact hv ▸ h3.val_mem
        · exact h4.eq_of_mem hx
    | underflow =>
        rcases hspec with ⟨h1, -, h3⟩
        rw [hout] at h1
        exact ⟨by simp [h1], by simp [h1, h3], by simp [h3], by simp⟩
    | overflow =>
        have h1 := hout.1 hspec
        exact ⟨by simp [h1], by simp [h1], by simp [h1], by simp⟩

end Reference
end RainFloat
