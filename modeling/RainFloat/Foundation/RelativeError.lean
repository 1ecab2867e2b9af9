import Mathlib.Algebra.Order.Field.Basic
import Mathlib.Algebra.Order.Ring.Pow
import Mathlib.Tactic.Linarith
import Mathlib.Tactic.Positivity
import Mathlib.Tactic.Ring

/-!
# RelativeError — errors that add up over a computation

A rounding keeps a share `κ` of a nonnegative number.  After `n` of them neither the number nor what
was computed of it falls short of the other by more than `κ^n`: `Within κ n q v`.

* `Within.add`, `Within.mul`, `Within.div`, `Within.min`, `Within.max`: the roundings of a sum are
  those of the worse term, those of a product or quotient add up;
* `Within.trans`: one rounding more;
* `Within.abs_sub_le`: the distance, as long as `n` roundings take away less than a half.
-/

namespace RainFloat
namespace Foundation

variable {K : Type*} [Field K] [LinearOrder K]

/-- A share of a number that is not nothing, and at most all of it. -/
structure IsShare (κ : K) : Prop where
  pos : 0 < κ
  le_one : κ ≤ 1

/-- `q` and `v` are nonnegative, and as close as `n` roundings leave a number to itself. -/
structure Within (κ : K) (n : ℕ) (q v : K) : Prop where
  left_nonneg : 0 ≤ q
  right_nonneg : 0 ≤ v
  le_right : κ ^ n * q ≤ v
  le_left : κ ^ n * v ≤ q

namespace Within

variable {κ : K} {m n : ℕ} {p q u v : K}

theorem refl (κ : K) (h : 0 ≤ q) : Within κ 0 q q := by
  refine ⟨h, h, ?_, ?_⟩
  · rw [pow_zero, one_mul]
  · rw [pow_zero, one_mul]

theorem symm (h : Within κ n q v) : Within κ n v q :=
  ⟨h.right_nonneg, h.left_nonneg, h.le_left, h.le_right⟩

variable [IsStrictOrderedRing K]

/-- What is kept of a number by one rounding -/
theorem of_rounding (hκ : IsShare κ) (hq : 0 ≤ q) (hle : v ≤ q) (hge : κ * q ≤ v) :
    Within κ 1 q v := by
  have hv : 0 ≤ v := (mul_nonneg hκ.pos.le hq).trans hge
  refine ⟨hq, hv, ?_, ?_⟩
  · rwa [pow_one]
  · rw [pow_one]
    exact (mul_le_of_le_one_left hv hκ.le_one).trans hle

theorem mono (hκ : IsShare κ) (h : Within κ m q v) (hmn : m ≤ n) : Within κ n q v := by
  have hpow : κ ^ n ≤ κ ^ m := pow_le_pow_of_le_one hκ.pos.le hκ.le_one hmn
  refine ⟨h.left_nonneg, h.right_nonneg, ?_, ?_⟩
  · exact (mul_le_mul_of_nonneg_right hpow h.left_nonneg).trans h.le_right
  · exact (mul_le_mul_of_nonneg_right hpow h.right_nonneg).trans h.le_left

/-- Roundings one after the other -/
theorem trans (hκ : IsShare κ) (h : Within κ m p q) (h' : Within κ n q v) :
    Within κ (m + n) p v := by
  refine ⟨h.left_nonneg, h'.right_nonneg, ?_, ?_⟩
  · calc
      κ ^ (m + n) * p = κ ^ n * (κ ^ m * p) := by ring
      _ ≤ κ ^ n * q := mul_le_mul_of_nonneg_left h.le_right (pow_nonneg hκ.pos.le n)
      _ ≤ v := h'.le_right
  · calc
      κ ^ (m + n) * v = κ ^ m * (κ ^ n * v) := by ring
      _ ≤ κ ^ m * q := mul_le_mul_of_nonneg_left h'.le_left (pow_nonneg hκ.pos.le m)
      _ ≤ p := h.le_left

/-- Roundings never turn a number into zero, nor zero into a number. -/
theorem eq_zero_iff (hκ : IsShare κ) (h : Within κ n q v) : q = 0 ↔ v = 0 := by
  have hpow : 0 < κ ^ n := pow_pos hκ.pos n
  constructor
  · rintro rfl
    exact le_antisymm (nonpos_of_mul_nonpos_right h.le_left hpow) h.right_nonneg
  · rintro rfl
    exact le_antisymm (nonpos_of_mul_nonpos_right h.le_right hpow) h.left_nonneg

theorem add (hκ : IsShare κ) (h : Within κ m p u) (h' : Within κ n q v) :
    Within κ (max m n) (p + q) (u + v) := by
  have hp := h.mono hκ (le_max_left m n)
  have hq := h'.mono hκ (le_max_right m n)
  refine ⟨add_nonneg hp.left_nonneg hq.left_nonneg, add_nonneg hp.right_nonneg hq.right_nonneg,
    ?_, ?_⟩
  · rw [mul_add]
    exact add_le_add hp.le_right hq.le_right
  · rw [mul_add]
    exact add_le_add hp.le_left hq.le_left

theorem mul (hκ : IsShare κ) (h : Within κ m p u) (h' : Within κ n q v) :
    Within κ (m + n) (p * q) (u * v) := by
  have hpow := pow_nonneg hκ.pos.le n
  refine ⟨mul_nonneg h.left_nonneg h'.left_nonneg, mul_nonneg h.right_nonneg h'.right_nonneg,
    ?_, ?_⟩
  · calc
      κ ^ (m + n) * (p * q) = κ ^ m * p * (κ ^ n * q) := by ring
      _ ≤ u * v := mul_le_mul h.le_right h'.le_right (mul_nonneg hpow h'.left_nonneg)
            h.right_nonneg
  · calc
      κ ^ (m + n) * (u * v) = κ ^ m * u * (κ ^ n * v) := by ring
      _ ≤ p * q := mul_le_mul h.le_left h'.le_left (mul_nonneg hpow h'.right_nonneg)
            h.left_nonneg

/-- What divides is as close upside down. -/
theorem inv (hκ : IsShare κ) (h : Within κ n q v) : Within κ n q⁻¹ v⁻¹ := by
  -- Zero is its own inverse, and only zero comes of it.
  rcases h.left_nonneg.eq_or_lt with rfl | hq
  · rw [(h.eq_zero_iff hκ).1 rfl, inv_zero]
    exact ⟨le_rfl, le_rfl, by rw [mul_zero], by rw [mul_zero]⟩
  have hv : 0 < v := h.right_nonneg.lt_of_ne' fun h0 => hq.ne' ((h.eq_zero_iff hκ).2 h0)
  -- Upside down, the two bounds trade places.
  refine ⟨inv_nonneg.2 hq.le, inv_nonneg.2 hv.le, ?_, ?_⟩
  · rw [← div_eq_mul_inv, div_le_iff₀ hq, mul_comm, ← div_eq_mul_inv, le_div_iff₀ hv]
    exact h.le_left
  · rw [← div_eq_mul_inv, div_le_iff₀ hv, mul_comm, ← div_eq_mul_inv, le_div_iff₀ hq]
    exact h.le_right

theorem div (hκ : IsShare κ) (h : Within κ m p u) (h' : Within κ n q v) :
    Within κ (m + n) (p / q) (u / v) := by
  rw [div_eq_mul_inv, div_eq_mul_inv]
  exact h.mul hκ (h'.inv hκ)

theorem min (hκ : IsShare κ) (h : Within κ m p u) (h' : Within κ n q v) :
    Within κ (max m n) (min p q) (min u v) := by
  have hp := h.mono hκ (le_max_left m n)
  have hq := h'.mono hκ (le_max_right m n)
  have hpow := pow_nonneg hκ.pos.le (max m n)
  refine ⟨le_min hp.left_nonneg hq.left_nonneg, le_min hp.right_nonneg hq.right_nonneg, ?_, ?_⟩
  · rw [mul_min_of_nonneg _ _ hpow]
    exact min_le_min hp.le_right hq.le_right
  · rw [mul_min_of_nonneg _ _ hpow]
    exact min_le_min hp.le_left hq.le_left

theorem max (hκ : IsShare κ) (h : Within κ m p u) (h' : Within κ n q v) :
    Within κ (max m n) (max p q) (max u v) := by
  have hp := h.mono hκ (le_max_left m n)
  have hq := h'.mono hκ (le_max_right m n)
  have hpow := pow_nonneg hκ.pos.le (Max.max m n)
  refine ⟨hp.left_nonneg.trans (le_max_left p q), hp.right_nonneg.trans (le_max_left u v), ?_, ?_⟩
  · rw [mul_max_of_nonneg _ _ hpow]
    exact max_le_max hp.le_right hq.le_right
  · rw [mul_max_of_nonneg _ _ hpow]
    exact max_le_max hp.le_left hq.le_left

/-- The distance is at most twice what `n` roundings take away, if that is at most a half. -/
theorem abs_sub_le {ε : K} (h : Within κ n q v) (h0 : 0 ≤ ε) (hε : 1 - ε ≤ κ ^ n)
    (hhalf : 2 * ε ≤ 1) : |q - v| ≤ 2 * ε * q := by
  have hle : (1 - ε) * q ≤ v := (mul_le_mul_of_nonneg_right hε h.left_nonneg).trans h.le_right
  have hge : (1 - ε) * v ≤ q := (mul_le_mul_of_nonneg_right hε h.right_nonneg).trans h.le_left
  -- No less than half of `v` is left, so `v` is at most twice `q`.
  have hv : v ≤ 2 * q := by
    have hscaled := mul_le_mul_of_nonneg_right hhalf h.right_nonneg
    linarith
  have hmore : ε * v ≤ ε * (2 * q) := mul_le_mul_of_nonneg_left hv h0
  have hsome : 0 ≤ ε * q := mul_nonneg h0 h.left_nonneg
  rw [abs_le]
  constructor
  · linarith
  · linarith

end Within

end Foundation
end RainFloat
