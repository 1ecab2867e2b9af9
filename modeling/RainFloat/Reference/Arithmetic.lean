import RainFloat.Reference.Pack

/-!
# Arithmetic — the reference's operations on Floats

Each operation forms an exact value, or one that rounds like it, and rounds it once.
-/

namespace RainFloat
namespace Reference

open Dec

/-- A stand-in for the sum of operands too far apart to be added exactly: the larger one, moved by
one unit 200 places below its top digit in the direction of the smaller. -/
def nudge (a b : Dec) : Exec Dec := do
  let o ← a.abs.cmpValue b.abs
  let (big, small) := if o = .lt then (b, a) else (a, b)
  let top ← i64 (big.e + digits big.c)
  let unit := if small.isNegative then -1 else 1
  let e ← i64 (top - 200)
  let s ← big.addExact ⟨unit, e⟩
  unwrap s

def add (a b : Dec) : Exec (Except RefError Dec) := do
  let exact ← a.addExact b
  let sum ← exact.elim (nudge a b) pure
  arithmetic sum

def sub (a b : Dec) : Exec (Except RefError Dec) :=
  add a b.neg

def mul (a b : Dec) : Exec (Except RefError Dec) := do
  let e ← i64 (a.e + b.e)
  arithmetic ⟨a.c * b.c, e⟩

/-- The digits kept of a quotient before it is rounded. -/
def extra : Nat := 160

def div (a b : Dec) : Exec (Except RefError Dec) :=
  if b.isZero then
    pure (.error .divisionByZero)
  else if a.isZero then
    pure (.ok zero)
  else do
    let d ← i64 (a.e - b.e)
    let e ← i64 (d - extra)
    arithmetic ⟨(a.c * pow10 extra).tdiv b.c, e⟩

def inv (a : Dec) : Exec (Except RefError Dec) :=
  div ⟨1, 0⟩ a

def minus (a : Dec) : Exec (Except RefError Dec) :=
  arithmetic a.neg

def abs (a : Dec) : Exec (Except RefError Dec) :=
  arithmetic a.abs

def integer (a : Dec) : Exec (Except RefError Dec) := do
  let t ← a.trunc
  arithmetic t

def frac (a : Dec) : Exec (Except RefError Dec) :=
  if a.e ≥ 0 then
    pure (.ok zero)
  else do
    let t ← a.trunc
    if t.isZero then
      arithmetic a
    else do
      let c ← t.atExponent a.e
      arithmetic ⟨a.c - c, a.e⟩

def floor (a : Dec) : Exec (Except RefError Dec) := do
  let t ← a.trunc
  -- `a.is_negative() && !t.eq_value(a)`: the comparison only runs for a negative value.
  if a.isNegative then do
    let whole ← t.eqValue a
    if whole then arithmetic t else arithmetic ⟨t.c - 1, 0⟩
  else
    arithmetic t

end Reference
end RainFloat
