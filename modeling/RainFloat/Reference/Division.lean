import RainFloat.Reference.Rounding
import RainFloat.Reference.Arithmetic

/-!
# Division — quotients truncate twice and round once

`div` truncates the exact quotient after `extra` digits and leaves the rest to `pack`.  The quotient
kept has at least 92 digits and no Float coefficient has more than 68, so every Float value of that
size is a multiple of the last digit kept: nothing the first truncation drops could matter to the
second one.
-/

namespace RainFloat
namespace Reference

open Foundation Dec

/-- The truncated quotient that `div` rounds. -/
def quotient (a b : Dec) : Dec :=
  ⟨(a.c * pow10 extra).tdiv b.c, a.e - b.e - extra⟩

theorem val_div_val (a b : Dec) :
    a.val / b.val =
      ((a.c * pow10 extra : ℤ) : ℚ) / (b.c : ℤ) * (10 : ℚ) ^ (a.e - b.e - (extra : ℤ)) := by
  have hsplit : (10 : ℚ) ^ (a.e - b.e - (extra : ℤ)) =
      (10 : ℚ) ^ a.e / (10 : ℚ) ^ b.e / (10 : ℚ) ^ (extra : ℤ) := by
    rw [zpow_sub₀ (by norm_num), zpow_sub₀ (by norm_num)]
  have h1 := (ten_zpow_pos b.e).ne'
  have h2 := (ten_zpow_pos (extra : ℤ)).ne'
  rw [hsplit, Int.cast_mul, pow10_cast, val, val]
  field_simp

/-- The quotient keeps more digits than a coefficient has. -/
theorem le_natAbs_quotient {a b : Dec} (ha : a.c ≠ 0) (hb : b.c ≠ 0) (hd : digits b.c ≤ 68) :
    10 ^ 92 ≤ (quotient a b).c.natAbs := by
  have hb' : b.c.natAbs < 10 ^ 68 :=
    (digits_natAbs_bounds hb).2.trans_le (Nat.pow_le_pow_right (by norm_num) hd)
  have ha' : 1 ≤ a.c.natAbs := Int.natAbs_pos.2 ha
  dsimp only [quotient]
  rw [Int.natAbs_tdiv]
  refine (Nat.le_div_iff_mul_le (Int.natAbs_pos.2 hb)).2 ?_
  rw [Int.natAbs_mul]
  calc
    10 ^ 92 * b.c.natAbs ≤ 10 ^ 92 * 10 ^ 68 := Nat.mul_le_mul_left _ hb'.le
    _ = 1 * (pow10 extra).natAbs := by decide +kernel
    _ ≤ a.c.natAbs * (pow10 extra).natAbs := Nat.mul_le_mul_right _ ha'

/-- Truncating after `extra` digits does not change which Float values lie below the quotient. -/
theorem sameBelow_quotient {a b : Dec} (ha : a.c ≠ 0) (hb : b.c ≠ 0) (hd : digits b.c ≤ 68) :
    SameBelow AnyExponent (a.val / b.val) (quotient a b).val := by
  rw [val_div_val]
  refine sameBelow_tdiv _ hb (ten_zpow_pos _) fun z hz hlt => ?_
  rw [anyExponent_eq] at hz
  rcases hz with ⟨f, -, hzf⟩
  -- Beyond the kept quotient `z` reaches 68 places past its last digit.
  have hge : (10 : ℚ) ^ (a.e - b.e - (extra : ℤ) + (68 : ℕ)) ≤ |z| := by
    have hkept : (10 : ℚ) ^ ((68 : ℕ) : ℤ) ≤ ((|(quotient a b).c| : ℤ) : ℚ) := by
      have h92 := le_natAbs_quotient ha hb hd
      have h68 : (10 : ℤ) ^ 68 ≤ |(quotient a b).c| := by
        rw [Int.abs_eq_natAbs]
        exact_mod_cast le_trans (by norm_num) h92
      rw [zpow_natCast]
      exact_mod_cast h68
    rw [ten_zpow_add, mul_comm]
    exact (mul_le_mul_of_nonneg_right hkept (ten_zpow_pos _).le).trans hlt.le
  simpa using multiple_of_mem_radixGrid (b := 10) (p := 68) (by norm_num) (by decide) (by decide)
    hzf (by simpa using hge)

theorem quotient_ne_zero {a b : Dec} (ha : a.c ≠ 0) (hb : b.c ≠ 0) (hd : digits b.c ≤ 68) :
    (quotient a b).val ≠ 0 := by
  intro h0
  have h92 := le_natAbs_quotient ha hb hd
  rw [val_eq_zero_iff.1 h0] at h92
  simp at h92

section Specs

variable {T : Panic → Prop}

/-- `div` rounds the exact quotient once. -/
theorem meets_div {a b : Dec} (ha : IsFloat a) (hb : IsFloat b) (hb0 : b.c ≠ 0) :
    Meets T (div a b) (Rounds (a.val / b.val)) := by
  unfold div
  rw [if_neg (by simpa using hb0)]
  by_cases ha0 : a.c = 0
  · rw [if_pos (isZero_iff.2 ha0), Meets.pure_iff, val_eq_zero_iff.2 ha0, zero_div]
    exact rounds_zero
  rw [if_neg (by simpa using ha0)]
  have h1 := ha.exponent_ge
  have h2 := ha.exponent_le
  have h3 := hb.exponent_ge
  have h4 := hb.exponent_le
  unfold i32Min at h1 h3
  unfold i32Max at h2 h4
  refine (meets_i64 (Or.inr ⟨by omega, by omega⟩)).bind_eq ?_
  refine (meets_i64 (Or.inr ⟨by unfold extra; omega, by unfold extra; omega⟩)).bind_eq ?_
  -- Neither the quotient nor what is kept of it vanishes, so both round alike.
  have hne : a.val / b.val ≠ 0 :=
    div_ne_zero (mt val_eq_zero_iff.1 ha0) (mt val_eq_zero_iff.1 hb0)
  have hne' := quotient_ne_zero ha0 hb0 hb.digits_le
  refine (meets_arithmetic (x := quotient a b) (Or.inr ?_)).mono fun r hr =>
    rounds_congr (sameBelow_quotient ha0 hb0 hb.digits_le).symm (by simp [hne, hne']) hr
  -- The quotient has no more digits than the scaled dividend.
  have hd : digits (quotient a b).c ≤ 228 := by
    apply digits_le
    dsimp only [quotient]
    rw [Int.natAbs_tdiv]
    exact (Nat.div_le_self _ _).trans_lt
      (natAbs_mul_pow10_lt (by have := ha.digits_le; unfold extra; omega))
  refine ⟨?_, ?_, by omega⟩ <;> dsimp only [quotient, extra] <;> omega

theorem isFloat_one : IsFloat ⟨1, 0⟩ :=
  ⟨by decide, by decide, by decide⟩

@[simp] theorem val_one : (⟨1, 0⟩ : Dec).val = 1 := by
  simp [val]

end Specs

theorem div_zero_divisor (a : Dec) {b : Dec} (hb : b.c = 0) :
    div a b = .ok (.error .divisionByZero) := by
  rw [div, if_pos (isZero_iff.2 hb)]
  rfl

/-! ## `div` and `inv`, read back -/

/-- A quotient of Floats fails for a zero divisor and only then; otherwise it is one rounding
towards zero of the exact rational quotient.  `inv` is this for the dividend one. -/
theorem div_rounds_quotient_once (a b : Dec) (ha : IsFloat a) (hb : IsFloat b) :
    (∃ r, div a b = .ok r ∧ (r = .error .divisionByZero ↔ b.val = 0) ∧
      (b.val ≠ 0 → RoundsOnce (a.val / b.val) r)) ∧
    (∃ r, inv a = .ok r ∧ (r = .error .divisionByZero ↔ a.val = 0) ∧
      (a.val ≠ 0 → RoundsOnce (1 / a.val) r)) := by
  -- `inv` divides one by its operand, so both halves are instances.
  have key : ∀ x y : Dec, IsFloat x → IsFloat y →
      ∃ r, div x y = .ok r ∧ (r = .error .divisionByZero ↔ y.val = 0) ∧
        (y.val ≠ 0 → RoundsOnce (x.val / y.val) r) := by
    intro x y hx hy
    by_cases hy0 : y.c = 0
    · have hv := val_eq_zero_iff.2 hy0
      exact ⟨_, div_zero_divisor x hy0, by simp [hv], fun hne => absurd hv hne⟩
    · rcases (meets_div hx hy hy0).returns with ⟨r, hr, hround⟩
      refine ⟨r, hr, ?_, fun _ => hround.once⟩
      have hv : y.val ≠ 0 := mt val_eq_zero_iff.1 hy0
      refine iff_of_false ?_ hv
      rintro rfl
      exact hround
  refine ⟨key a b ha hb, ?_⟩
  simpa only [inv, val_one] using key ⟨1, 0⟩ a isFloat_one ha

/-- One third, as a quotient and as the inverse of three. -/
theorem div_rounds_quotient_once_third :
    (∃ r, div ⟨1, 0⟩ ⟨3, 0⟩ = .ok r ∧
      RoundsOnce ((⟨1, 0⟩ : Dec).val / (⟨3, 0⟩ : Dec).val) r) ∧
    ∃ r, inv ⟨3, 0⟩ = .ok r ∧ RoundsOnce (1 / (⟨3, 0⟩ : Dec).val) r := by
  have hthree : (⟨3, 0⟩ : Dec).val ≠ 0 := by norm_num [val]
  have h := div_rounds_quotient_once ⟨1, 0⟩ ⟨3, 0⟩ ⟨by decide, by decide, by decide⟩
    ⟨by decide, by decide, by decide⟩
  have h' := div_rounds_quotient_once ⟨3, 0⟩ ⟨1, 0⟩ ⟨by decide, by decide, by decide⟩
    ⟨by decide, by decide, by decide⟩
  rcases h.1 with ⟨r, hr, -, hround⟩
  rcases h'.2 with ⟨s, hs, -, hround'⟩
  exact ⟨⟨r, hr, hround hthree⟩, s, hs, hround' hthree⟩

end Reference
end RainFloat
