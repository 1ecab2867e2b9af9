import RainFloat.Reference.Bytes
import RainFloat.Reference.Division
import RainFloat.Reference.Unary

/-!
# Closure — every result is a Float again

Whatever the bytes of its operands, an operation returns, and a value it returns has bytes of its
own.

* `meets_mul`: `mul` rounds the exact product once;
* `Returns`: an operation returns, and what it returns is a Float or an error;
* `layout_bijective_and_closed`: the bytes of a Float are the Float, and the operations lead from
  bytes to bytes.
-/

namespace RainFloat
namespace Reference

open Foundation Dec

/-! ## Products -/

theorem digits_mul_le (c d : ℤ) : digits (c * d) ≤ digits c + digits d := by
  apply digits_le
  rw [Int.natAbs_mul, pow_add]
  exact Nat.mul_lt_mul'' (natAbs_lt_pow_digits c) (natAbs_lt_pow_digits d)

theorem val_product (a b : Dec) : (⟨a.c * b.c, a.e + b.e⟩ : Dec).val = a.val * b.val := by
  rw [val, val, val, ten_zpow_add, Int.cast_mul]
  ring

section Specs

variable {T : Panic → Prop}

/-- `mul` rounds the exact product once. -/
theorem meets_mul {a b : Dec} (ha : IsFloat a) (hb : IsFloat b) :
    Meets T (mul a b) (Rounds (a.val * b.val)) := by
  have h1 := ha.isOperand.bounds
  have h2 := hb.isOperand.bounds
  have hd := digits_mul_le a.c b.c
  refine (meets_i64 (Or.inr ⟨by omega, by omega⟩)).bind_eq ?_
  rw [← val_product]
  refine meets_arithmetic (Or.inr ⟨?_, ?_, ?_⟩) <;> dsimp only <;> omega

end Specs

/-! ## Operations on Floats -/

/-- An operation returns, without a panic on the way, and a value it returns is a Float. -/
abbrev Returns (m : Exec (Except RefError Dec)) : Prop :=
  Meets (fun _ => False) m fun r => ∀ v, r = .ok v → IsFloat v

theorem Rounds.isFloat {q : ℚ} {r : Except RefError Dec} (h : Rounds q r) {v : Dec}
    (hr : r = .ok v) : IsFloat v := by
  subst hr
  exact h.2.2.1

theorem returns_of_rounds {m : Exec (Except RefError Dec)} {q : ℚ}
    (h : Meets (fun _ => False) m (Rounds q)) : Returns m :=
  h.mono fun _ hr _ hv => hr.isFloat hv

/-- An operation that always yields a Float. -/
theorem returns_of_yields {m : Exec (Except RefError Dec)} {P : Dec → Prop}
    (h : Meets (fun _ => False) m fun r => ∃ v, r = .ok v ∧ IsFloat v ∧ P v) : Returns m := by
  refine h.mono ?_
  rintro _ ⟨v, rfl, hv, -⟩ w ⟨⟩
  exact hv

theorem returns_div {a b : Dec} (ha : IsFloat a) (hb : IsFloat b) : Returns (div a b) := by
  by_cases hb0 : b.c = 0
  · rw [div_zero_divisor a hb0]
    rintro v ⟨⟩
  · exact returns_of_rounds (meets_div ha hb hb0)

/-- The outcomes of the operations on `a` and `b`. -/
def outcomes (a b : Dec) : List (Exec (Except RefError Dec)) :=
  [add a b, sub a b, mul a b, div a b, inv a, minus a, abs a, integer a, frac a, floor a]

theorem returns_of_mem_outcomes {a b : Dec} (ha : IsFloat a) (hb : IsFloat b)
    {m : Exec (Except RefError Dec)} (hm : m ∈ outcomes a b) : Returns m := by
  simp only [outcomes, List.mem_cons, List.not_mem_nil, or_false] at hm
  rcases hm with rfl | rfl | rfl | rfl | rfl | rfl | rfl | rfl | rfl | rfl
  · exact returns_of_rounds (meets_add ha.isOperand hb.isOperand)
  · exact returns_of_rounds (meets_add ha.isOperand hb.isOperand.neg)
  · exact returns_of_rounds (meets_mul ha hb)
  · exact returns_div ha hb
  · exact returns_div isFloat_one ha
  · exact returns_of_yields (meets_minus ha)
  · exact returns_of_yields (meets_abs ha)
  · exact returns_of_yields (meets_integer ha)
  · exact returns_of_yields (meets_frac ha)
  · exact returns_of_yields (meets_floor ha)

/-! ## From bytes to bytes -/

/-- Writing a Float's coefficient and exponent into bytes and reading them back are inverse to each
other.  On any bytes whatever every operation returns without a panic, and a value it returns
passes the assertions of `toBytes`. -/
theorem layout_bijective_and_closed :
    (∀ x : Dec, -(2 ^ 223) ≤ x.c → x.c < 2 ^ 223 → -(2 ^ 31) ≤ x.e → x.e < 2 ^ 31 →
      ∃ b, toBytes x = .ok b ∧ fromBytes b = x) ∧
    (∀ b : B256, toBytes (fromBytes b) = .ok b) ∧
    (∀ a b : B256, ∀ m ∈ outcomes (fromBytes a) (fromBytes b),
      ∃ r, m = .ok r ∧ ∀ v, r = .ok v →
        fitsInt224 v.c = true ∧ i32Min ≤ v.e ∧ v.e ≤ i32Max ∧
          ∃ w, toBytes v = .ok w ∧ fromBytes w = v) := by
  refine ⟨?_, ?_, ?_⟩
  · intro x hc hc' he he'
    have hx : IsFloat x := by
      refine ⟨fitsInt224_iff.2 ⟨hc, ?_⟩, ?_, ?_⟩
      · exact Int.le_sub_one_of_lt hc'
      · unfold i32Min
        omega
      · unfold i32Max
        omega
    exact ⟨_, toBytes_eq_layout hx, fromBytes_layout hx⟩
  · intro b
    exact toBytes_eq_ok_iff.2 rfl
  · intro a b m hm
    have hreturns := returns_of_mem_outcomes (isFloat_fromBytes a) (isFloat_fromBytes b) hm
    rcases hreturns.returns with ⟨r, hr, hfloat⟩
    refine ⟨r, hr, fun v hv => ?_⟩
    have hx := hfloat v hv
    exact ⟨hx.coefficient, hx.exponent_ge, hx.exponent_le, _, toBytes_eq_layout hx,
      fromBytes_layout hx⟩

end Reference
end RainFloat
