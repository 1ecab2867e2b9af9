import RainFloat.Foundation.TruncatedGrid

/-!
# TruncationOrder — truncation as an order-preserving approximation

* `TruncatesTo.mono`: truncation is monotone, whatever the set;
* `TruncatesTo.le_of_le`: above zero it takes the largest element not exceeding the number;
* `TruncatesTo.le_iff`, `TruncatesTo.ge_iff`: so elements of the set cannot tell the two apart;
* `TruncatesTo.floor_mul_eq`: nor can a count of whole units, as long as the set holds the count;
* `TruncatesTo.trans`, `TruncatesTo.scale`: truncation in two stages, and on another scale;
* `error_lt_of_multiples_mem`: where there are the multiples of a unit, the error is below it;
* `truncation_error_lt`: into a radix grid, the error is below the unit of the last digit kept.
-/

namespace RainFloat
namespace Foundation

variable {K : Type*} [Field K] [LinearOrder K]

/-! ## Order -/

namespace TruncatesTo

variable {S : Set K} {x x' y y' : K}

theorem nonpos (h : TruncatesTo S x y) (hx : x ≤ 0) : y ≤ 0 :=
  ((mem_uIcc_zero_of_nonpos hx).1 h.2.1).2

theorem le_self (h : TruncatesTo S x y) (hx : 0 ≤ x) : y ≤ x :=
  ((mem_uIcc_zero_of_nonneg hx).1 h.2.1).2

theorem self_le (h : TruncatesTo S x y) (hx : x ≤ 0) : x ≤ y :=
  ((mem_uIcc_zero_of_nonpos hx).1 h.2.1).1

variable [IsStrictOrderedRing K]

/-- Above zero, truncation takes the largest element that does not exceed the number. -/
theorem le_of_le (h : TruncatesTo S x y) {z : K} (hz : z ∈ S) (hz0 : 0 ≤ z) (hzx : z ≤ x) :
    z ≤ y := by
  have hle := h.2.2 z hz ((mem_uIcc_zero_of_nonneg (hz0.trans hzx)).2 ⟨hz0, hzx⟩)
  rwa [abs_of_nonneg hz0, abs_of_nonneg (h.nonneg (hz0.trans hzx))] at hle

/-- Below zero, the smallest element that is not below the number. -/
theorem ge_of_ge (h : TruncatesTo S x y) {z : K} (hz : z ∈ S) (hz0 : z ≤ 0) (hzx : x ≤ z) :
    y ≤ z := by
  have hle := h.2.2 z hz ((mem_uIcc_zero_of_nonpos (hzx.trans hz0)).2 ⟨hzx, hz0⟩)
  rw [abs_of_nonpos hz0, abs_of_nonpos (h.nonpos (hzx.trans hz0))] at hle
  linarith

/-- The mirror image of a truncation. -/
theorem neg (h : TruncatesTo S x y) : TruncatesTo {z | -z ∈ S} (-x) (-y) :=
  of_neg (by simpa using h)

/-- An element of the set is no larger than the truncation exactly if it is no larger than the
number: above zero truncation is the upper adjoint of the inclusion. -/
theorem le_iff (h : TruncatesTo S x y) (hx : 0 ≤ x) {z : K} (hz : z ∈ S) : z ≤ y ↔ z ≤ x := by
  constructor
  · intro hle
    exact hle.trans (h.le_self hx)
  · intro hle
    rcases le_total 0 z with hz0 | hz0
    · exact h.le_of_le hz hz0 hle
    · exact hz0.trans (h.nonneg hx)

/-- Below zero it is the lower adjoint. -/
theorem ge_iff (h : TruncatesTo S x y) (hx : x ≤ 0) {z : K} (hz : z ∈ S) : y ≤ z ↔ x ≤ z := by
  constructor
  · intro hle
    exact (h.self_le hx).trans hle
  · intro hle
    rcases le_total z 0 with hz0 | hz0
    · exact h.ge_of_ge hz hz0 hle
    · exact (h.nonpos hx).trans hz0

/-- Above zero, the whole units in a number are those in its truncation, if they are an element of
the set. -/
theorem floor_mul_eq [FloorRing K] (h : TruncatesTo S x y) (hx : 0 ≤ x) {s : K} (hs : 0 < s)
    (hmem : (⌊x * s⌋ : K) / s ∈ S) : ⌊y * s⌋ = ⌊x * s⌋ := by
  rw [Int.floor_eq_iff]
  constructor
  · -- The whole units of `x` are an element up to `x`, and so up to its truncation.
    have hle : (⌊x * s⌋ : K) / s ≤ y := by
      apply (h.le_iff hx hmem).2
      exact (div_le_iff₀ hs).2 (Int.floor_le _)
    exact (div_le_iff₀ hs).1 hle
  · calc
      y * s ≤ x * s := mul_le_mul_of_nonneg_right (h.le_self hx) hs.le
      _ < ⌊x * s⌋ + 1 := Int.lt_floor_add_one _

/-- Above zero, truncating into a larger set first changes nothing. -/
theorem trans {T : Set K} (h : TruncatesTo T x y) (h' : TruncatesTo S y y') (hx : 0 ≤ x)
    (hST : ∀ z ∈ S, 0 ≤ z → z ∈ T) : TruncatesTo S x y' := by
  have hy := h.nonneg hx
  have hy' := h'.nonneg hy
  refine ⟨h'.1, ?_, ?_⟩
  · apply (mem_uIcc_zero_of_nonneg hx).2
    exact ⟨hy', (h'.le_self hy).trans (h.le_self hx)⟩
  · intro z hz hzx
    rw [mem_uIcc_zero_of_nonneg hx] at hzx
    rw [abs_of_nonneg hzx.1, abs_of_nonneg hy']
    -- An element of `S` up to `x` is one of `T`, and so up to `y`.
    apply h'.le_of_le hz hzx.1
    exact h.le_of_le (hST z hz hzx.1) hzx.1 hzx.2

/-- Truncation on a scale of its own. -/
theorem scale (h : TruncatesTo S x y) {t : K} (ht : 0 < t) :
    TruncatesTo {z | z / t ∈ S} (x * t) (y * t) := by
  -- The interval grows with the number, on either side of zero.
  have hmem : ∀ z, z ∈ Set.uIcc 0 (x * t) ↔ z / t ∈ Set.uIcc 0 x := by
    intro z
    rcases le_total 0 x with hx | hx
    · rw [mem_uIcc_zero_of_nonneg (mul_nonneg hx ht.le), mem_uIcc_zero_of_nonneg hx,
        div_le_iff₀ ht, le_div_iff₀ ht, zero_mul]
    · rw [mem_uIcc_zero_of_nonpos (mul_nonpos_of_nonpos_of_nonneg hx ht.le),
        mem_uIcc_zero_of_nonpos hx, div_le_iff₀ ht, le_div_iff₀ ht, zero_mul]
  have hy : y * t / t = y := mul_div_cancel_right₀ y ht.ne'
  refine ⟨?_, ?_, ?_⟩
  · change y * t / t ∈ S
    rw [hy]
    exact h.1
  · rw [hmem, hy]
    exact h.2.1
  · intro z hz hzx
    have hle := h.2.2 (z / t) hz ((hmem z).1 hzx)
    rw [abs_div, abs_of_pos ht, div_le_iff₀ ht] at hle
    rwa [abs_mul, abs_of_pos ht]

theorem mono (h : TruncatesTo S x y) (h' : TruncatesTo S x' y') (hx : x ≤ x') : y ≤ y' := by
  rcases le_total 0 x with h0 | h0
  · -- Both are rounded down.
    exact h'.le_of_le h.1 (h.nonneg h0) ((h.le_self h0).trans hx)
  rcases le_total x' 0 with h0' | h0'
  · -- Both are rounded up.
    exact h.ge_of_ge h'.1 (h'.nonpos h0') (hx.trans (h'.self_le h0'))
  · -- Zero lies between the two.
    exact (h.nonpos h0).trans (h'.nonneg h0')

end TruncatesTo

/-! ## Accuracy -/

section Accuracy

variable [IsStrictOrderedRing K] {b : ℕ} {lo hi : ℤ} {x y : K}

/-- Where the set holds the multiples of a unit, less than one unit is dropped. -/
theorem error_lt_of_multiples_mem [FloorRing K] {S : Set K} {u : K} (hu : 0 < u)
    (hS : ∀ n : ℤ, |(n : K) * u| ≤ |x| → (n : K) * u ∈ S) (h : TruncatesTo S x y) :
    |x - y| < u := by
  -- On one side of zero: the largest multiple is an element.
  have key : ∀ {S : Set K} {x y : K}, 0 ≤ x → (∀ n : ℤ, |(n : K) * u| ≤ |x| → (n : K) * u ∈ S) →
      TruncatesTo S x y → |x - y| < u := by
    intro S x y hx hS h
    have hfloor := Int.floor_le (x / u)
    have hlt := Int.lt_floor_add_one (x / u)
    rw [le_div_iff₀ hu] at hfloor
    rw [div_lt_iff₀ hu] at hlt
    have hpos : (0 : K) ≤ (⌊x / u⌋ : K) * u :=
      mul_nonneg (by exact_mod_cast Int.floor_nonneg.2 (div_nonneg hx hu.le)) hu.le
    have hmem := hS ⌊x / u⌋ (by rwa [abs_of_nonneg hpos, abs_of_nonneg hx])
    have hbest := h.le_of_le hmem hpos hfloor
    rw [abs_of_nonneg (by linarith [h.le_self hx])]
    linarith
  rcases le_total 0 x with hx | hx
  · exact key hx hS h
  · have hmirror := key (neg_nonneg.2 hx) (fun n hn => ?_) h.neg
    · rwa [neg_sub_neg, abs_sub_comm] at hmirror
    · have := hS (-n) (by simpa using hn)
      simpa using this

/-- A positive number and its leading `m + 1` digits: a coefficient of that many digits and the
exponent at which what is left over starts. -/
theorem exists_leading_digits [FloorRing K] (hb : 2 ≤ b) (m : ℕ) (hx : 0 < x) :
    ∃ c e : ℤ, 0 ≤ c ∧ c ≤ (b : ℤ) ^ (m + 1) ∧ (b : K) ^ e * (b : K) ^ m ≤ x ∧
      (c : K) * (b : K) ^ e ≤ x ∧ x < ((c : K) + 1) * (b : K) ^ e := by
  have hb1 : (1 : K) < b := by exact_mod_cast hb
  have hb0 : (0 : K) < b := zero_lt_one.trans hb1
  rcases exists_mem_Ico_zpow hx hb1 with ⟨n, hn, hn'⟩
  have hpos : (0 : K) < (b : K) ^ (n - m) := zpow_pos hb0 _
  have hfloor := Int.floor_le (x / (b : K) ^ (n - m))
  have hlt := Int.lt_floor_add_one (x / (b : K) ^ (n - m))
  rw [le_div_iff₀ hpos] at hfloor
  rw [div_lt_iff₀ hpos] at hlt
  -- The exponent of the leading digit, `m` digits further down.
  refine ⟨⌊x / (b : K) ^ (n - m)⌋, n - m, ?_, ?_, ?_, hfloor, hlt⟩
  · exact Int.floor_nonneg.2 (div_nonneg hx.le hpos.le)
  · -- Below the next power there is room for `m + 1` digits only.
    have hscale : (b : K) ^ (n + 1) = (b : K) ^ (m + 1) * (b : K) ^ (n - m) := by
      rw [← zpow_natCast, ← zpow_add₀ hb0.ne']
      congr 1
      push_cast
      ring
    rw [hscale, ← div_lt_iff₀ hpos] at hn'
    have := (Int.floor_lt (z := (b : ℤ) ^ (m + 1))).2 (by push_cast; exact hn')
    exact this.le
  · rw [← zpow_natCast, ← zpow_add₀ hb0.ne', sub_add_cancel]
    exact hn

theorem truncation_error_lt_of_pos [FloorRing K] (hb : 2 ≤ b) {m : ℕ}
    (hhi : (b : ℤ) ^ (m + 1) ≤ hi) (hlo : lo ≤ 0)
    (h : TruncatesTo (radixGrids b lo hi Set.univ) x y) (hx : 0 < x) :
    (x - y) * (b : K) ^ m < x := by
  have hb0 : (0 : K) < b := by exact_mod_cast (by omega : 0 < b)
  rcases exists_leading_digits hb m hx with ⟨c, e, hc, hc', hlead, hle, hlt⟩
  have hpos : (0 : K) < (b : K) ^ e := zpow_pos hb0 _
  have hc0 : (0 : K) ≤ c := by exact_mod_cast hc
  -- The leading digits are an element of the grid, and truncation does at least as well.
  have hmem : (c : K) * (b : K) ^ e ∈ radixGrids b lo hi Set.univ :=
    ⟨e, Set.mem_univ e, c, hlo.trans hc, hc'.trans hhi, rfl⟩
  have hbest := h.le_of_le hmem (mul_nonneg hc0 hpos.le) hle
  have hgap : x - y < (b : K) ^ e := by linarith
  calc
    (x - y) * (b : K) ^ m < (b : K) ^ e * (b : K) ^ m :=
      mul_lt_mul_of_pos_right hgap (pow_pos hb0 m)
    _ ≤ x := hlead

/-- Truncation into a radix grid whose coefficients include all those of `m + 1` digits drops less
than one unit in `m` digits. -/
theorem truncation_error_lt [FloorRing K] (hb : 2 ≤ b) {m : ℕ} (hhi : (b : ℤ) ^ (m + 1) ≤ hi)
    (hlo : lo ≤ -(b : ℤ) ^ (m + 1)) (h : TruncatesTo (radixGrids b lo hi Set.univ) x y)
    (hx : x ≠ 0) : |x - y| * (b : K) ^ m < |x| := by
  have hpow : (0 : ℤ) ≤ (b : ℤ) ^ (m + 1) := by positivity
  rcases lt_or_gt_of_ne hx with hneg | hpos
  · -- The mirror image of the positive case.
    have hmirror := h.neg
    rw [neg_radixGrids] at hmirror
    have hlt := truncation_error_lt_of_pos (m := m) hb (by omega) (by omega) hmirror
      (neg_pos.2 hneg)
    rw [abs_of_neg hneg, abs_of_nonpos (by linarith [h.self_le hneg.le])]
    calc
      -(x - y) * (b : K) ^ m = (-x - -y) * (b : K) ^ m := by ring
      _ < -x := hlt
  · have hlt := truncation_error_lt_of_pos hb hhi (by omega) h hpos
    rwa [abs_of_pos hpos, abs_of_nonneg (by linarith [h.le_self hpos.le])]

end Accuracy

end Foundation
end RainFloat
