import RainFloat.Foundation.CheckedRun

/-!
# Rust — the checked operations the reference is written with

The reference computes with unbounded `BigInt` coefficients and `i64` exponents.  Coefficients
are `Int` here.  Exponents are `Int` too, and every `i64` operation of the source passes its
result through `i64`, which stops with `Panic.overflow` where a checked build panics.

`Exec` is what such a computation returns: a value, or the panic that stopped it.
-/

namespace RainFloat
namespace Reference

open Foundation

/-- The ways the reference stops instead of returning. -/
inductive Panic
  | overflow
  | assertion
  | unwrap
  | unreachable
  deriving DecidableEq, Repr

abbrev Exec (α : Type) : Type := Except Panic α

/-- The values of an `i64`. -/
abbrev I64 (z : Int) : Prop :=
  -9223372036854775808 ≤ z ∧ z ≤ 9223372036854775807

/-- The result of an `i64` operation whose exact result is `z`. -/
def i64 (z : Int) : Exec Int :=
  if I64 z then pure z else throw .overflow

/-- `assert!` -/
def assert (p : Prop) [Decidable p] : Exec Unit :=
  if p then pure () else throw .assertion

/-- `Option::unwrap` -/
def unwrap {α : Type} : Option α → Exec α
  | some a => pure a
  | none => throw .unwrap

/-- `Ord::clamp`, which asserts that the bounds are ordered. -/
def clamp (z lo hi : Int) : Exec Int := do
  assert (lo ≤ hi)
  pure (if z < lo then lo else if hi < z then hi else z)

/-! ## Their specifications -/

section Rules

variable {T : Panic → Prop} {Q : Int → Prop}

/-- An `i64` operation yields its exact result where that fits, or where overflow is tolerated. -/
theorem meets_i64 {z : Int} (h : T .overflow ∨ I64 z) : Meets T (i64 z) (· = z) := by
  unfold i64
  split
  · rfl
  · rcases h with h | h
    · exact h
    · contradiction

theorem meets_assert {p : Prop} [Decidable p] (h : p) : Meets T (assert p) (fun _ => True) := by
  simp [assert, h]

theorem meets_unwrap {α : Type} {a : α} {o : Option α} (h : o = some a) :
    Meets T (unwrap o) (· = a) := by
  subst h
  rfl

theorem meets_clamp {z lo hi : Int} (h : lo ≤ hi) :
    Meets T (clamp z lo hi) (· = max lo (min z hi)) := by
  refine (meets_assert h).bind fun _ _ => ?_
  rw [Meets.pure_iff]
  split
  · omega
  · split <;> omega

end Rules

end Reference
end RainFloat
