import Mathlib.Algebra.Order.Archimedean.Basic
import Mathlib.Algebra.Order.Field.Power
import Mathlib.Algebra.Order.Floor.Ring
import Mathlib.Algebra.Order.Ring.Abs
import Mathlib.Data.Int.ConditionallyCompleteOrder
import Mathlib.Data.Sign.Basic
import Mathlib.Order.Interval.Set.UnorderedInterval
import Mathlib.Tactic.Linarith
import Mathlib.Tactic.Ring
import Mathlib.Tactic.Push

/-!
# TruncatedGrid — rounding towards zero in a radix grid

`TruncatesTo S x y` says that `y` is the element of `S` lying between zero and `x` that is
farthest from zero, i.e. the result of rounding `x` towards zero into `S`.

The sets of interest are floating-point grids: `radixGrid b lo hi e` holds the products
`c * b ^ e` whose coefficient `c` lies in `[lo, hi]`, and `radixGrids b lo hi E` lets the exponent
range over `E`.  Three facts carry everything that is proved about such grids:

* the best exponent is one of two neighbours (`exists_turning_exponent`, `dominated_by_turning`);
* far enough from zero a grid only holds multiples of a fixed unit (`multiple_of_mem_radixGrid`);
* two numbers in the same cell of that unit are truncated alike (`sameBelow_of_same_cell`), so a
  tail below the unit matters by its sign alone (`sameBelow_add_tail`).
-/

namespace RainFloat
namespace Foundation

variable {K : Type*} [Field K]

section Truncation

variable [LinearOrder K]

/-! ## The segment from zero -/

theorem mem_uIcc_zero_of_nonneg {x z : K} (hx : 0 ≤ x) :
    z ∈ Set.uIcc 0 x ↔ 0 ≤ z ∧ z ≤ x := by
  simp [Set.uIcc_of_le hx]

theorem mem_uIcc_zero_of_nonpos {x z : K} (hx : x ≤ 0) :
    z ∈ Set.uIcc 0 x ↔ x ≤ z ∧ z ≤ 0 := by
  simp [Set.uIcc_of_ge hx]

/-! ## Truncation into a set -/

/-- `y` is the element of `S` between zero and `x` that lies farthest from zero. -/
def TruncatesTo (S : Set K) (x y : K) : Prop :=
  y ∈ S ∧ y ∈ Set.uIcc 0 x ∧ ∀ z ∈ S, z ∈ Set.uIcc 0 x → |z| ≤ |y|

/-- `x` and `x'` have the same elements of `S` between themselves and zero. -/
def SameBelow (S : Set K) (x x' : K) : Prop :=
  ∀ z ∈ S, z ∈ Set.uIcc 0 x ↔ z ∈ Set.uIcc 0 x'

namespace TruncatesTo

variable {S S' : Set K} {x x' y : K}

theorem congr (hS : SameBelow S x x') : TruncatesTo S x y ↔ TruncatesTo S x' y := by
  constructor
  · rintro ⟨hy, hyx, hmax⟩
    exact ⟨hy, (hS y hy).1 hyx, fun z hz hzx => hmax z hz ((hS z hz).2 hzx)⟩
  · rintro ⟨hy, hyx, hmax⟩
    exact ⟨hy, (hS y hy).2 hyx, fun z hz hzx => hmax z hz ((hS z hz).1 hzx)⟩

/-- A truncation that lands in a smaller set is the truncation into that set. -/
theorem restrict (h : TruncatesTo S x y) (hS : S' ⊆ S) (hy : y ∈ S') : TruncatesTo S' x y :=
  ⟨hy, h.2.1, fun z hz hzx => h.2.2 z (hS hz) hzx⟩

theorem nonneg (h : TruncatesTo S x y) (hx : 0 ≤ x) : 0 ≤ y :=
  ((mem_uIcc_zero_of_nonneg hx).1 h.2.1).1

end TruncatesTo

theorem SameBelow.symm {S : Set K} {x x' : K} (h : SameBelow S x x') : SameBelow S x' x :=
  fun z hz => (h z hz).symm

theorem SameBelow.mono {S S' : Set K} {x x' : K} (h : SameBelow S x x') (hS : S' ⊆ S) :
    SameBelow S' x x' :=
  fun z hz => h z (hS hz)

/-! ## Signs and mirror images -/

variable [IsStrictOrderedRing K]

theorem neg_mem_uIcc_zero {x z : K} : -z ∈ Set.uIcc 0 (-x) ↔ z ∈ Set.uIcc 0 x := by
  rcases le_total 0 x with hx | hx
  · rw [Set.uIcc_of_le hx, Set.uIcc_of_ge (by linarith), Set.mem_Icc, Set.mem_Icc]
    constructor <;> rintro ⟨h1, h2⟩ <;> constructor <;> linarith
  · rw [Set.uIcc_of_ge hx, Set.uIcc_of_le (by linarith), Set.mem_Icc, Set.mem_Icc]
    constructor <;> rintro ⟨h1, h2⟩ <;> constructor <;> linarith

theorem abs_le_of_mem_uIcc_zero {x z : K} (h : z ∈ Set.uIcc 0 x) : |z| ≤ |x| := by
  rcases le_total 0 x with hx | hx
  · rw [mem_uIcc_zero_of_nonneg hx] at h
    rw [abs_of_nonneg h.1, abs_of_nonneg hx]
    exact h.2
  · rw [mem_uIcc_zero_of_nonpos hx] at h
    rw [abs_of_nonpos h.2, abs_of_nonpos hx]
    linarith [h.1]

/-- A nonzero number lies on the segment from zero to `x` exactly when it has the sign of `x` and
does not exceed it in magnitude. -/
theorem mem_uIcc_zero_iff_sign {x z : K} (hz : z ≠ 0) :
    z ∈ Set.uIcc 0 x ↔ SignType.sign z = SignType.sign x ∧ |z| ≤ |x| := by
  rcases lt_or_gt_of_ne hz with hz | hz
  · rcases le_or_gt 0 x with hx | hx
    · rw [mem_uIcc_zero_of_nonneg hx, sign_neg hz]
      refine ⟨fun h => absurd h.1 (not_le.mpr hz), fun h => absurd h.1.symm ?_⟩
      rcases hx.eq_or_lt with rfl | hx
      · simp
      · simp [sign_pos hx]
    · rw [mem_uIcc_zero_of_nonpos hx.le, sign_neg hz, sign_neg hx, abs_of_neg hz, abs_of_neg hx]
      exact ⟨fun h => ⟨rfl, by linarith [h.1]⟩, fun h => ⟨by linarith [h.2], hz.le⟩⟩
  · rcases le_or_gt x 0 with hx | hx
    · rw [mem_uIcc_zero_of_nonpos hx, sign_pos hz]
      refine ⟨fun h => absurd h.2 (not_le.mpr hz), fun h => absurd h.1.symm ?_⟩
      rcases hx.eq_or_lt with rfl | hx
      · simp
      · simp [sign_neg hx]
    · rw [mem_uIcc_zero_of_nonneg hx.le, sign_pos hz, sign_pos hx, abs_of_pos hz, abs_of_pos hx]
      exact ⟨fun h => ⟨rfl, h.2⟩, fun h => ⟨hz.le, h.2⟩⟩

namespace TruncatesTo

variable {S S' : Set K} {x x' y y' : K}

/-- Two elements of a segment from zero with the same magnitude are equal. -/
private theorem eq_of_abs_eq (hy : y ∈ Set.uIcc 0 x) (hy' : y' ∈ Set.uIcc 0 x)
    (h : |y| = |y'|) : y = y' := by
  rcases le_total 0 x with hx | hx
  · rw [mem_uIcc_zero_of_nonneg hx] at hy hy'
    rwa [abs_of_nonneg hy.1, abs_of_nonneg hy'.1] at h
  · rw [mem_uIcc_zero_of_nonpos hx] at hy hy'
    rw [abs_of_nonpos hy.2, abs_of_nonpos hy'.2] at h
    linarith

theorem unique (h : TruncatesTo S x y) (h' : TruncatesTo S x y') : y = y' :=
  eq_of_abs_eq h.2.1 h'.2.1
    (le_antisymm (h'.2.2 y h.1 h.2.1) (h.2.2 y' h'.1 h'.2.1))

/-- An element of the set is its own truncation. -/
theorem of_mem (hx : x ∈ S) : TruncatesTo S x x :=
  ⟨hx, Set.right_mem_uIcc, fun _ _ hz => abs_le_of_mem_uIcc_zero hz⟩

theorem eq_of_mem (h : TruncatesTo S x y) (hx : x ∈ S) : y = x :=
  h.unique (of_mem hx)

theorem abs_le (h : TruncatesTo S x y) : |y| ≤ |x| :=
  abs_le_of_mem_uIcc_zero h.2.1

/-- Truncation does not change when the set and the number are mirrored. -/
theorem of_neg (h : TruncatesTo {z | -z ∈ S} (-x) (-y)) : TruncatesTo S x y := by
  refine ⟨by simpa using h.1, neg_mem_uIcc_zero.1 h.2.1, fun z hz hzx => ?_⟩
  have := h.2.2 (-z) (by simpa using hz) (neg_mem_uIcc_zero.2 hzx)
  rwa [abs_neg, abs_neg] at this

/-- A truncation that is not zero has the sign of the truncated number. -/
theorem sign_eq (h : TruncatesTo S x y) (hy : y ≠ 0) : SignType.sign y = SignType.sign x :=
  ((mem_uIcc_zero_iff_sign hy).1 h.2.1).1

end TruncatesTo

/-- Mirroring the set and both numbers changes nothing. -/
theorem SameBelow.of_neg {S : Set K} {x x' : K} (h : SameBelow {z | -z ∈ S} (-x) (-x')) :
    SameBelow S x x' := by
  intro z hz
  have hneg := h (-z) (by simpa using hz)
  rwa [neg_mem_uIcc_zero, neg_mem_uIcc_zero] at hneg

end Truncation

/-! ## Radix grids -/

/-- The numbers `c * b ^ e` with a coefficient between `lo` and `hi`. -/
def radixGrid (b : ℕ) (lo hi e : ℤ) : Set K :=
  {q | ∃ c : ℤ, lo ≤ c ∧ c ≤ hi ∧ q = c * (b : K) ^ e}

/-- The numbers `c * b ^ e` with a coefficient between `lo` and `hi` and an exponent in `E`. -/
def radixGrids (b : ℕ) (lo hi : ℤ) (E : Set ℤ) : Set K :=
  {q | ∃ e ∈ E, q ∈ radixGrid b lo hi e}

theorem radixGrids_mono {b : ℕ} {lo hi : ℤ} {E E' : Set ℤ} (h : E ⊆ E') :
    (radixGrids b lo hi E : Set K) ⊆ radixGrids b lo hi E' := by
  rintro q ⟨e, he, hq⟩
  exact ⟨e, h he, hq⟩

/-- The mirror image of a grid is the grid of the negated bounds. -/
theorem neg_radixGrid (b : ℕ) (lo hi f : ℤ) :
    {z : K | -z ∈ radixGrid b lo hi f} = radixGrid b (-hi) (-lo) f := by
  ext z
  constructor
  · rintro ⟨c, hcl, hch, hz⟩
    exact ⟨-c, by omega, by omega, by rw [Int.cast_neg, neg_mul, ← hz, neg_neg]⟩
  · rintro ⟨c, hcl, hch, rfl⟩
    exact ⟨-c, by omega, by omega, by rw [Int.cast_neg, neg_mul]⟩

theorem neg_radixGrids (b : ℕ) (lo hi : ℤ) (E : Set ℤ) :
    {z : K | -z ∈ radixGrids b lo hi E} = radixGrids b (-hi) (-lo) E := by
  ext z
  constructor
  · rintro ⟨e, he, hz⟩
    exact ⟨e, he, by rwa [← neg_radixGrid]⟩
  · rintro ⟨e, he, hz⟩
    rw [← neg_radixGrid] at hz
    exact ⟨e, he, hz⟩

section Grid

variable [LinearOrder K] [IsStrictOrderedRing K] {b : ℕ} {lo hi : ℤ} {x : K}

theorem radix_zpow_pos (hb : 2 ≤ b) (e : ℤ) : (0 : K) < (b : K) ^ e :=
  zpow_pos (by exact_mod_cast (by omega : 0 < b)) e

theorem radix_zpow_le (hb : 2 ≤ b) {e f : ℤ} (h : e ≤ f) : (b : K) ^ e ≤ (b : K) ^ f :=
  zpow_le_zpow_right₀ (by exact_mod_cast (by omega : 1 ≤ b)) h

theorem radix_zpow_le_iff (hb : 2 ≤ b) {e f : ℤ} : (b : K) ^ e ≤ (b : K) ^ f ↔ e ≤ f :=
  zpow_le_zpow_iff_right₀ (by exact_mod_cast (by omega : 1 < b))

/-- A multiple of a coarse power is a multiple of a finer one. -/
theorem intCast_mul_zpow_refine (hb : 2 ≤ b) (c : ℤ) {e f : ℤ} (h : e ≤ f) :
    (c : K) * (b : K) ^ f = ((c * (b : ℤ) ^ (f - e).toNat : ℤ) : K) * (b : K) ^ e := by
  have hb0 : (b : K) ≠ 0 := by exact_mod_cast (by omega : b ≠ 0)
  have hf : f = ((f - e).toNat : ℤ) + e := by omega
  have hpow : (b : K) ^ f = (b : K) ^ (f - e).toNat * (b : K) ^ e := by
    conv_lhs => rw [hf]
    rw [zpow_add₀ hb0, zpow_natCast]
  rw [hpow]
  push_cast
  ring

/-- No coefficient bound is in the way at exponent `f`: every multiple of `b ^ f` between zero
and `x` has its coefficient in range. -/
def Full (b : ℕ) (lo hi : ℤ) (x : K) (f : ℤ) : Prop :=
  ((lo : K) - 1) * (b : K) ^ f < x ∧ x < ((hi : K) + 1) * (b : K) ^ f

/-- `x` reaches one of the coefficient bounds at exponent `f`. -/
def Saturated (b : ℕ) (lo hi : ℤ) (x : K) (f : ℤ) : Prop :=
  (hi : K) * (b : K) ^ f ≤ x ∨ x ≤ (lo : K) * (b : K) ^ f

theorem Full.mono (hb : 2 ≤ b) (hlo : lo ≤ 0) (hhi : 0 ≤ hi) {f g : ℤ}
    (h : Full b lo hi x f) (hfg : f ≤ g) : Full b lo hi x g := by
  have hpow : (b : K) ^ f ≤ (b : K) ^ g := radix_zpow_le hb hfg
  have hlo' : (lo : K) ≤ 0 := by exact_mod_cast hlo
  have hhi' : (0 : K) ≤ hi := by exact_mod_cast hhi
  constructor
  · nlinarith [h.1]
  · nlinarith [h.2]

theorem Saturated.anti (hb : 2 ≤ b) (hlo : lo ≤ 0) (hhi : 0 ≤ hi) {f g : ℤ}
    (h : Saturated b lo hi x g) (hfg : f ≤ g) : Saturated b lo hi x f := by
  have hpow : (b : K) ^ f ≤ (b : K) ^ g := radix_zpow_le hb hfg
  have hlo' : (lo : K) ≤ 0 := by exact_mod_cast hlo
  have hhi' : (0 : K) ≤ hi := by exact_mod_cast hhi
  rcases h with h | h
  · exact Or.inl (by nlinarith)
  · exact Or.inr (by nlinarith)

/-- Where no bound is in the way, the multiples of `b ^ f` between zero and `x` are in range. -/
theorem coefficient_mem_of_full (hb : 2 ≤ b) (hlo : lo ≤ 0) (hhi : 0 ≤ hi) {f m : ℤ}
    (h : Full b lo hi x f) (hm : (m : K) * (b : K) ^ f ∈ Set.uIcc 0 x) : lo ≤ m ∧ m ≤ hi := by
  have hpos : (0 : K) < (b : K) ^ f := radix_zpow_pos hb f
  constructor
  · -- Below `lo` the multiple would lie past `x`, or on the wrong side of zero.
    by_contra hcon
    have hneg : (m : K) ≤ lo - 1 := by exact_mod_cast (by omega : m ≤ lo - 1)
    have hlo' : (lo : K) ≤ 0 := by exact_mod_cast hlo
    rcases le_total 0 x with hx | hx
    · rw [mem_uIcc_zero_of_nonneg hx] at hm
      nlinarith [hm.1]
    · rw [mem_uIcc_zero_of_nonpos hx] at hm
      nlinarith [h.1, hm.1]
  · by_contra hcon
    have hbig : (hi : K) + 1 ≤ m := by exact_mod_cast (by omega : hi + 1 ≤ m)
    have hhi' : (0 : K) ≤ hi := by exact_mod_cast hhi
    rcases le_total 0 x with hx | hx
    · rw [mem_uIcc_zero_of_nonneg hx] at hm
      nlinarith [h.2, hm.2]
    · rw [mem_uIcc_zero_of_nonpos hx] at hm
      nlinarith [hm.2]

/-- Where no bound is in the way, a finer exponent holds all that a coarser one does. -/
theorem mem_radixGrid_of_full (hb : 2 ≤ b) (hlo : lo ≤ 0) (hhi : 0 ≤ hi) {f g : ℤ} {z : K}
    (h : Full b lo hi x f) (hfg : f ≤ g) (hz : z ∈ radixGrid b lo hi g)
    (hzx : z ∈ Set.uIcc 0 x) : z ∈ radixGrid b lo hi f := by
  rcases hz with ⟨c, -, -, rfl⟩
  rw [intCast_mul_zpow_refine hb c hfg] at hzx ⊢
  have hc := coefficient_mem_of_full hb hlo hhi h hzx
  exact ⟨_, hc.1, hc.2, rfl⟩

/-- Where `x` reaches a coefficient bound, a coarser exponent reaches at least as far as a finer
one. -/
theorem exists_ge_of_saturated (hb : 2 ≤ b) (hlo : lo < 0) (hhi : 0 < hi) {f g : ℤ} {z : K}
    (h : Saturated b lo hi x g) (hfg : f ≤ g) (hz : z ∈ radixGrid b lo hi f)
    (hzx : z ∈ Set.uIcc 0 x) :
    ∃ z' ∈ radixGrid b lo hi g, z' ∈ Set.uIcc 0 x ∧ |z| ≤ |z'| := by
  rcases hz with ⟨c, hc, hc', rfl⟩
  have hpow : (b : K) ^ f ≤ (b : K) ^ g := radix_zpow_le hb hfg
  have hpos : (0 : K) < (b : K) ^ f := radix_zpow_pos hb f
  have hlo' : (lo : K) < 0 := by exact_mod_cast hlo
  have hhi' : (0 : K) < hi := by exact_mod_cast hhi
  have hcl : (lo : K) ≤ c := by exact_mod_cast hc
  have hch : (c : K) ≤ hi := by exact_mod_cast hc'
  -- The bound that `x` reaches is the point sought.
  rcases h with h | h
  · have hx : 0 ≤ x := by nlinarith
    refine ⟨hi * (b : K) ^ g, ⟨hi, by omega, le_rfl, rfl⟩, ?_, ?_⟩
    · rw [mem_uIcc_zero_of_nonneg hx]
      exact ⟨by nlinarith, h⟩
    · rw [mem_uIcc_zero_of_nonneg hx] at hzx
      rw [abs_of_nonneg hzx.1, abs_of_nonneg (by nlinarith)]
      nlinarith
  · have hx : x ≤ 0 := by nlinarith
    refine ⟨lo * (b : K) ^ g, ⟨lo, le_rfl, by omega, rfl⟩, ?_, ?_⟩
    · rw [mem_uIcc_zero_of_nonpos hx]
      exact ⟨h, by nlinarith⟩
    · rw [mem_uIcc_zero_of_nonpos hx] at hzx
      rw [abs_of_nonpos hzx.2, abs_of_nonpos (by nlinarith)]
      nlinarith

/-! ## The turning exponent -/

/-- The exponent at which a number with `p` digits below `b ^ top` stops being held back by the
coefficient bounds: it is full there and saturated one below. -/
theorem exists_turning_exponent (hb : 2 ≤ b) {p : ℕ} (hp : 0 < p)
    (hhi : (b : ℤ) ^ (p - 1) ≤ hi) (hhi' : hi ≤ (b : ℤ) ^ p)
    (hlo : lo ≤ -(b : ℤ) ^ (p - 1)) (hlo' : -(b : ℤ) ^ p ≤ lo) {top : ℤ}
    (hx : (b : K) ^ (top - 1) ≤ |x|) (hx' : |x| < (b : K) ^ top) :
    ∃ t, top - p ≤ t ∧ t ≤ top - p + 1 ∧ Full b lo hi x t ∧ Saturated b lo hi x (t - 1) := by
  have hb0 : (b : K) ≠ 0 := by exact_mod_cast (by omega : b ≠ 0)
  have hsplit : ∀ (n : ℕ) (e : ℤ), (b : K) ^ n * (b : K) ^ e = (b : K) ^ (n + e) := by
    intro n e
    rw [zpow_add₀ hb0, zpow_natCast]
  have h1 : (b : K) ^ (p - 1) ≤ hi := by exact_mod_cast hhi
  have h2 : (hi : K) ≤ (b : K) ^ p := by exact_mod_cast hhi'
  have h3 : (lo : K) ≤ -(b : K) ^ (p - 1) := by exact_mod_cast hlo
  have h4 : -(b : K) ^ p ≤ lo := by exact_mod_cast hlo'
  by_cases hfull : Full b lo hi x (top - p)
  · -- Full already at `top - p`: one below, the largest coefficient stays under `b ^ (top - 1)`.
    refine ⟨top - p, le_rfl, by omega, hfull, ?_⟩
    have hpos : (0 : K) < (b : K) ^ (top - p - 1) := radix_zpow_pos hb _
    have hreach : (b : K) ^ p * (b : K) ^ (top - p - 1) = (b : K) ^ (top - 1) := by
      rw [hsplit]
      congr 1
      omega
    rcases le_total 0 x with hx0 | hx0
    · rw [abs_of_nonneg hx0] at hx
      exact Or.inl (by nlinarith)
    · rw [abs_of_nonpos hx0] at hx
      exact Or.inr (by nlinarith)
  · -- Otherwise `x` reaches past a bound at `top - p`, and one above there is room again.
    refine ⟨top - p + 1, by omega, le_rfl, ?_, ?_⟩
    · have hpos : (0 : K) < (b : K) ^ (top - p + 1) := radix_zpow_pos hb _
      have hreach : (b : K) ^ (p - 1) * (b : K) ^ (top - p + 1) = (b : K) ^ top := by
        rw [hsplit]
        congr 1
        omega
      rw [abs_lt] at hx'
      exact ⟨by nlinarith [hx'.1], by nlinarith [hx'.2]⟩
    · have hpos : (0 : K) < (b : K) ^ (top - p) := radix_zpow_pos hb _
      have hsat : Saturated b lo hi x (top - p) := by
        rcases not_and_or.1 hfull with h | h
        · exact Or.inr (by nlinarith [not_lt.1 h])
        · exact Or.inl (by nlinarith [not_lt.1 h])
      simpa using hsat

/-- Every grid point between zero and `x` with an exponent in `[l, h]` is matched in magnitude by
one at the turning exponent `t` or at `t - 1`, both clamped into `[l, h]`. -/
theorem dominated_by_turning (hb : 2 ≤ b) (hlo : lo < 0) (hhi : 0 < hi) {l h f t : ℤ} {z : K}
    (hfull : Full b lo hi x t) (hsat : Saturated b lo hi x (t - 1)) (hl : l ≤ f) (hh : f ≤ h)
    (hz : z ∈ radixGrid b lo hi f) (hzx : z ∈ Set.uIcc 0 x) :
    ∃ g, (g = max l (min t h) ∨ g = max l (min (t - 1) h)) ∧
      ∃ z' ∈ radixGrid b lo hi g, z' ∈ Set.uIcc 0 x ∧ |z| ≤ |z'| := by
  by_cases htf : t ≤ f
  · -- From the turning exponent on, a finer exponent holds the same points.
    have hg : Full b lo hi x (max l (min t h)) := hfull.mono hb hlo.le hhi.le (by omega)
    refine ⟨_, Or.inl rfl, z, ?_, hzx, le_rfl⟩
    exact mem_radixGrid_of_full hb hlo.le hhi.le hg (by omega) hz hzx
  · -- Below it, a coarser exponent reaches farther.
    have hg : Saturated b lo hi x (max l (min (t - 1) h)) :=
      hsat.anti hb hlo.le hhi.le (by omega)
    exact ⟨_, Or.inr rfl, exists_ge_of_saturated hb hlo hhi hg (by omega) hz hzx⟩

/-- A window of exponents around the turning exponent truncates like the whole range. -/
theorem truncatesTo_univ_of_window (hb : 2 ≤ b) (hlo : lo < 0) (hhi : 0 < hi) {l h t : ℤ} {y : K}
    (hfull : Full b lo hi x t) (hsat : Saturated b lo hi x (t - 1)) (hl : l ≤ t - 1) (hh : t ≤ h)
    (hy : TruncatesTo (radixGrids b lo hi (Set.Icc l h)) x y) :
    TruncatesTo (radixGrids b lo hi Set.univ) x y := by
  refine ⟨radixGrids_mono (Set.subset_univ _) hy.1, hy.2.1, ?_⟩
  rintro z ⟨f, -, hz⟩ hzx
  rcases dominated_by_turning hb hlo hhi hfull hsat (min_le_left f (t - 1)) (le_max_left f t) hz hzx
    with ⟨g, hg, z', hz', hzx', hle⟩
  have hgw : g ∈ Set.Icc l h := by
    rw [Set.mem_Icc]
    rcases hg with rfl | rfl <;> omega
  exact hle.trans (hy.2.2 z' ⟨g, hgw, hz'⟩ hzx')

/-! ## Truncation at one exponent -/

theorem truncatesTo_clamp_of_nonneg (hb : 2 ≤ b) (hlo : lo ≤ 0) (hhi : 0 ≤ hi) {f n : ℤ}
    (hx : 0 ≤ x) (hn : (n : K) * (b : K) ^ f ∈ Set.uIcc 0 x)
    (hmax : ∀ m : ℤ, (m : K) * (b : K) ^ f ∈ Set.uIcc 0 x → |m| ≤ |n|) :
    TruncatesTo (radixGrid b lo hi f) x ((max lo (min n hi) : ℤ) * (b : K) ^ f) := by
  have hpos : (0 : K) < (b : K) ^ f := radix_zpow_pos hb f
  simp only [mem_uIcc_zero_of_nonneg hx] at hn hmax
  have hn0 : 0 ≤ n := by
    have : (0 : K) ≤ n := by nlinarith [hn.1]
    exact_mod_cast this
  -- On this side of zero only the upper bound can cut anything off.
  have hclamp : max lo (min n hi) = min n hi := by omega
  have h0 : (0 : K) ≤ (min n hi : ℤ) := by exact_mod_cast (by omega : 0 ≤ min n hi)
  have h1 : ((min n hi : ℤ) : K) ≤ n := by exact_mod_cast (by omega : min n hi ≤ n)
  rw [hclamp]
  refine ⟨⟨_, by omega, by omega, rfl⟩, ?_, ?_⟩
  · rw [mem_uIcc_zero_of_nonneg hx]
    exact ⟨by positivity, le_trans (by nlinarith) hn.2⟩
  · rintro z ⟨c, hcl, hch, rfl⟩ hz
    rw [mem_uIcc_zero_of_nonneg hx] at hz
    have hc0 : 0 ≤ c := by
      have : (0 : K) ≤ c := by nlinarith [hz.1]
      exact_mod_cast this
    have hc := hmax c hz
    rw [abs_of_nonneg hc0, abs_of_nonneg hn0] at hc
    have hle : (c : K) ≤ (min n hi : ℤ) := by exact_mod_cast (by omega : c ≤ min n hi)
    rw [abs_of_nonneg hz.1, abs_of_nonneg (mul_nonneg h0 hpos.le)]
    nlinarith

/-- Clamping the coefficient of an integer truncation gives the truncation into the grid of that
exponent. -/
theorem truncatesTo_clamp (hb : 2 ≤ b) (hlo : lo ≤ 0) (hhi : 0 ≤ hi) {f n : ℤ}
    (hn : (n : K) * (b : K) ^ f ∈ Set.uIcc 0 x)
    (hmax : ∀ m : ℤ, (m : K) * (b : K) ^ f ∈ Set.uIcc 0 x → |m| ≤ |n|) :
    TruncatesTo (radixGrid b lo hi f) x ((max lo (min n hi) : ℤ) * (b : K) ^ f) := by
  rcases le_total 0 x with hx | hx
  · exact truncatesTo_clamp_of_nonneg hb hlo hhi hx hn hmax
  · -- Mirrored, the coefficient bounds trade places.
    have hflip : ∀ m : ℤ, ((-m : ℤ) : K) * (b : K) ^ f = -(m * (b : K) ^ f) := by
      intro m
      rw [Int.cast_neg, neg_mul]
    apply TruncatesTo.of_neg
    rw [neg_radixGrid, ← hflip, show -max lo (min n hi) = max (-hi) (min (-n) (-lo)) by omega]
    refine truncatesTo_clamp_of_nonneg hb (by omega) (by omega) (neg_nonneg.2 hx) ?_ ?_
    · rw [hflip]
      exact neg_mem_uIcc_zero.2 hn
    · intro m hm
      rw [← neg_neg m, hflip, neg_mem_uIcc_zero] at hm
      simpa using hmax (-m) hm

/-! ## Every number can be truncated -/

section Existence

variable [FloorRing K]

theorem exists_truncatesTo_radixGrid_of_nonneg (hb : 2 ≤ b) (hlo : lo ≤ 0) (hhi : 0 ≤ hi)
    (hx : 0 ≤ x) (f : ℤ) : ∃ y, TruncatesTo (radixGrid b lo hi f) x y := by
  have hpos : (0 : K) < (b : K) ^ f := radix_zpow_pos hb f
  refine ⟨_, truncatesTo_clamp_of_nonneg hb hlo hhi (n := ⌊x / (b : K) ^ f⌋) hx ?_ ?_⟩
  · rw [mem_uIcc_zero_of_nonneg hx, ← le_div_iff₀ hpos]
    have h0 : (0 : K) ≤ ⌊x / (b : K) ^ f⌋ := by
      exact_mod_cast Int.floor_nonneg.2 (div_nonneg hx hpos.le)
    exact ⟨mul_nonneg h0 hpos.le, Int.floor_le _⟩
  · intro m hm
    rw [mem_uIcc_zero_of_nonneg hx, ← le_div_iff₀ hpos] at hm
    have hm0 : (0 : K) ≤ m := by nlinarith [hm.1]
    have hle : m ≤ ⌊x / (b : K) ^ f⌋ := Int.le_floor.2 hm.2
    have hm0' : 0 ≤ m := by exact_mod_cast hm0
    rw [abs_of_nonneg hm0', abs_of_nonneg (hm0'.trans hle)]
    exact hle

theorem exists_truncatesTo_radixGrid (hb : 2 ≤ b) (hlo : lo ≤ 0) (hhi : 0 ≤ hi) (x : K) (f : ℤ) :
    ∃ y, TruncatesTo (radixGrid b lo hi f) x y := by
  rcases le_total 0 x with hx | hx
  · exact exists_truncatesTo_radixGrid_of_nonneg hb hlo hhi hx f
  · rcases exists_truncatesTo_radixGrid_of_nonneg (K := K) hb (neg_nonpos.2 hhi)
      (neg_nonneg.2 hlo) (neg_nonneg.2 hx) f with ⟨y, hy⟩
    refine ⟨-y, TruncatesTo.of_neg ?_⟩
    rwa [neg_radixGrid, neg_neg]

/-- Every number has a truncation into the grids of all exponents, when the coefficient bounds
hold `p` digits. -/
theorem exists_truncatesTo_radixGrids (hb : 2 ≤ b) {p : ℕ} (hp : 0 < p)
    (hhi : (b : ℤ) ^ (p - 1) ≤ hi) (hhi' : hi ≤ (b : ℤ) ^ p)
    (hlo : lo ≤ -(b : ℤ) ^ (p - 1)) (hlo' : -(b : ℤ) ^ p ≤ lo) (x : K) :
    ∃ y, TruncatesTo (radixGrids b lo hi Set.univ) x y := by
  have hone : (1 : ℤ) ≤ (b : ℤ) ^ (p - 1) := one_le_pow₀ (by omega)
  have hlo0 : lo < 0 := by omega
  have hhi0 : 0 < hi := by omega
  by_cases hx : x = 0
  · subst hx
    exact ⟨0, TruncatesTo.of_mem ⟨0, Set.mem_univ _, 0, hlo0.le, hhi0.le, by simp⟩⟩
  have hb1 : (1 : K) < b := by exact_mod_cast (by omega : 1 < b)
  rcases exists_mem_Ico_zpow (abs_pos.2 hx) hb1 with ⟨n, hn, hn'⟩
  have hn1 : (b : K) ^ (n + 1 - 1) ≤ |x| := by simpa using hn
  rcases exists_turning_exponent hb hp hhi hhi' hlo hlo' hn1 hn' with ⟨t, -, -, hfull, hsat⟩
  rcases exists_truncatesTo_radixGrid hb hlo0.le hhi0.le x t with ⟨y, hy⟩
  rcases exists_truncatesTo_radixGrid hb hlo0.le hhi0.le x (t - 1) with ⟨y', hy'⟩
  -- The better of the candidates at `t` and `t - 1` beats every other exponent.
  have key : ∀ {v : K} {g : ℤ}, v ∈ radixGrid b lo hi g → v ∈ Set.uIcc 0 x → |y| ≤ |v| →
      |y'| ≤ |v| → TruncatesTo (radixGrids b lo hi Set.univ) x v := by
    intro v g hv hvx hyv hyv'
    refine ⟨⟨g, Set.mem_univ _, hv⟩, hvx, ?_⟩
    rintro z ⟨f, -, hz⟩ hzx
    rcases dominated_by_turning hb hlo0 hhi0 hfull hsat (min_le_left f (t - 1)) (le_max_left f t)
      hz hzx with ⟨g', hg', z', hz', hzx', hle⟩
    refine hle.trans ?_
    rcases (by omega : g' = t ∨ g' = t - 1) with rfl | rfl
    · exact (hy.2.2 z' hz' hzx').trans hyv
    · exact (hy'.2.2 z' hz' hzx').trans hyv'
  rcases le_total |y| |y'| with hle | hle
  · exact ⟨y', key hy'.1 hy'.2.1 hle le_rfl⟩
  · exact ⟨y, key hy.1 hy.2.1 le_rfl hle⟩

end Existence

/-! ## Cells: numbers that truncate alike -/

/-- Grid points of magnitude above `b ^ (j + p)`, where `p` digits hold every coefficient, are
multiples of `b ^ j`. -/
theorem multiple_of_mem_radixGrid (hb : 2 ≤ b) {p : ℕ} (hhi : hi ≤ (b : ℤ) ^ p)
    (hlo : -(b : ℤ) ^ p ≤ lo) {f j : ℤ} {z : K} (hz : z ∈ radixGrid b lo hi f)
    (hj : (b : K) ^ (j + p) ≤ |z|) : ∃ m : ℤ, z = m * (b : K) ^ j := by
  rcases hz with ⟨c, hcl, hch, rfl⟩
  have hb0 : (b : K) ≠ 0 := by exact_mod_cast (by omega : b ≠ 0)
  have hpos : (0 : K) < (b : K) ^ f := radix_zpow_pos hb f
  have hc : (|(c : K)|) ≤ (b : K) ^ p := by
    have : |c| ≤ (b : ℤ) ^ p := abs_le.2 ⟨by omega, by omega⟩
    exact_mod_cast this
  have hle : (b : K) ^ (j + p) ≤ (b : K) ^ ((p : ℤ) + f) := by
    calc
      (b : K) ^ (j + p) ≤ |(c : K) * (b : K) ^ f| := hj
      _ = |(c : K)| * (b : K) ^ f := by rw [abs_mul, abs_of_pos hpos]
      _ ≤ (b : K) ^ p * (b : K) ^ f := by nlinarith
      _ = (b : K) ^ ((p : ℤ) + f) := by rw [zpow_add₀ hb0, zpow_natCast]
  have hjf : j ≤ f := by
    have := (radix_zpow_le_iff hb).1 hle
    omega
  exact ⟨_, intCast_mul_zpow_refine hb c hjf⟩

/-- Two nonnegative numbers in one cell `[w, w + u)` have the same elements of `S` below them,
when the elements of `S` beyond `w` are multiples of `u`. -/
theorem sameBelow_of_same_cell {S : Set K} {u w d d' : K} {n : ℤ} (hu : 0 < u) (hw : w = n * u)
    (hw0 : 0 ≤ w) (hd : 0 ≤ d) (hdu : d < u) (hd' : 0 ≤ d') (hdu' : d' < u)
    (hS : ∀ z ∈ S, w < |z| → ∃ m : ℤ, z = m * u) : SameBelow S (w + d) (w + d') := by
  intro z hz
  rw [mem_uIcc_zero_of_nonneg (by linarith), mem_uIcc_zero_of_nonneg (by linarith)]
  refine and_congr_right fun hz0 => ?_
  rcases le_or_gt z w with hzw | hzw
  · exact ⟨fun _ => by linarith, fun _ => by linarith⟩
  · -- Beyond `w` the next candidate is `w + u`, above both numbers.
    rcases hS z hz (by rwa [abs_of_nonneg hz0]) with ⟨m, hm⟩
    have hnm : n < m := by
      have : (n : K) < m := by nlinarith
      exact_mod_cast this
    have hge : w + u ≤ z := by
      have : (n : K) + 1 ≤ m := by exact_mod_cast hnm
      nlinarith
    constructor <;> intro h <;> linarith

/-- If the elements of `S` beyond `w` are multiples of `u`, so are those of its mirror image. -/
theorem multiple_of_neg_mem {S : Set K} {u w : K} (hS : ∀ z ∈ S, w < |z| → ∃ m : ℤ, z = m * u) :
    ∀ z ∈ {z | -z ∈ S}, w < |z| → ∃ m : ℤ, z = m * u := by
  intro z hz hwz
  rcases hS (-z) hz (by rwa [abs_neg]) with ⟨m, hm⟩
  exact ⟨-m, by push_cast; linarith⟩

/-- The mirror image of `sameBelow_of_same_cell` for nonpositive numbers. -/
theorem sameBelow_neg_of_same_cell {S : Set K} {u w d d' : K} {n : ℤ} (hu : 0 < u)
    (hw : w = n * u) (hw0 : 0 ≤ w) (hd : 0 ≤ d) (hdu : d < u) (hd' : 0 ≤ d') (hdu' : d' < u)
    (hS : ∀ z ∈ S, w < |z| → ∃ m : ℤ, z = m * u) : SameBelow S (-(w + d)) (-(w + d')) := by
  apply SameBelow.of_neg
  rw [neg_neg, neg_neg]
  exact sameBelow_of_same_cell hu hw hw0 hd hdu hd' hdu' (multiple_of_neg_mem hS)

/-! ## Tails too small to matter -/

/-- Whether the tails point away from zero or towards it, both sums lie inside one cell. -/
theorem sameBelow_add_tail_of_nonneg {S : Set K} {u w δ δ' : K} {n : ℤ} (hw : w = n * u)
    (hle : u ≤ w) (hsign : 0 < δ ∧ 0 < δ' ∨ δ < 0 ∧ δ' < 0) (hδ : |δ| < u) (hδ' : |δ'| < u)
    (hS : ∀ z ∈ S, w - u < |z| → ∃ m : ℤ, z = m * u) : SameBelow S (w + δ) (w + δ') := by
  have hu : 0 < u := (abs_nonneg δ).trans_lt hδ
  rcases hsign with ⟨h1, h2⟩ | ⟨h1, h2⟩
  · rw [abs_of_pos h1] at hδ
    rw [abs_of_pos h2] at hδ'
    exact sameBelow_of_same_cell hu hw (by linarith) h1.le hδ h2.le hδ' fun z hz hlt =>
      hS z hz (by linarith)
  · rw [abs_of_neg h1] at hδ
    rw [abs_of_neg h2] at hδ'
    have hcell : w - u = ((n - 1 : ℤ) : K) * u := by
      push_cast
      linarith
    have := sameBelow_of_same_cell hu hcell (by linarith) (d := u + δ) (by linarith) (by linarith)
      (by linarith : 0 ≤ u + δ') (by linarith) hS
    convert this using 1 <;> ring

/-- Adding to a multiple `w` of `u` one of two tails of the same sign, both smaller than `u`, leaves
the same elements of `S` between zero and the sum, when those beyond `|w| - u` are multiples of `u`
too. -/
theorem sameBelow_add_tail {S : Set K} {u w δ δ' : K} {n : ℤ} (hw : w = n * u) (hle : u ≤ |w|)
    (hsign : 0 < δ ∧ 0 < δ' ∨ δ < 0 ∧ δ' < 0) (hδ : |δ| < u) (hδ' : |δ'| < u)
    (hS : ∀ z ∈ S, |w| - u < |z| → ∃ m : ℤ, z = m * u) : SameBelow S (w + δ) (w + δ') := by
  rcases le_total 0 w with h0 | h0
  · rw [abs_of_nonneg h0] at hle hS
    exact sameBelow_add_tail_of_nonneg hw hle hsign hδ hδ' hS
  · -- Mirrored, the sign of the tails changes along with that of `w`.
    rw [abs_of_nonpos h0] at hle hS
    have hneg : -w = ((-n : ℤ) : K) * u := by
      push_cast
      linarith
    have hsign' : 0 < -δ ∧ 0 < -δ' ∨ -δ < 0 ∧ -δ' < 0 := by
      rcases hsign with ⟨h1, h2⟩ | ⟨h1, h2⟩
      · exact Or.inr ⟨neg_lt_zero.2 h1, neg_lt_zero.2 h2⟩
      · exact Or.inl ⟨neg_pos.2 h1, neg_pos.2 h2⟩
    apply SameBelow.of_neg
    rw [neg_add, neg_add]
    exact sameBelow_add_tail_of_nonneg hneg hle hsign' (by rwa [abs_neg]) (by rwa [abs_neg])
      (multiple_of_neg_mem hS)

end Grid

end Foundation
end RainFloat
