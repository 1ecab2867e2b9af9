import RainFloat.Reference.Rust
import Mathlib.Tactic.Linarith

/-!
# Dec — the reference's decimal values

`Dec` is `c × 10^e` with an unbounded coefficient.  This module embeds the value operations of the
reference: digit counts, zero stripping, alignment to an exponent, comparison, exact addition and
truncation to an integer.
-/

namespace RainFloat
namespace Reference

/-- The errors the reference expects the concrete to revert with. -/
inductive RefError
  | exponentOverflow
  | exponentUnderflow
  | divisionByZero
  | lossyConversionToFloat
  | lossyConversionFromFloat
  | negativeFixedDecimalConversion
  | fixedDecimalOverflow
  | unformatableExponent
  deriving DecidableEq, Repr

def i32Min : Int := -2147483648
def i32Max : Int := 2147483647

def pow10 (k : Nat) : Int :=
  10 ^ k

def int224Min : Int :=
  -(2 ^ 223)

def int224Max : Int :=
  2 ^ 223 - 1

def fitsInt224 (c : Int) : Bool :=
  int224Min ≤ c && c ≤ int224Max

/-- The number of decimal digits of `c`, zero having none. -/
def digits (c : Int) : Nat :=
  if c = 0 then 0 else (Nat.toDigits 10 c.natAbs).length

/-- `c` without its last `k` digits. -/
def shed (c : Int) (k : Nat) : Int :=
  if k > digits c then 0 else c.tdiv (pow10 k)

/-- `num_bigint::Sign` -/
inductive Sign
  | minus
  | noSign
  | plus
  deriving DecidableEq, Repr

/-- `BigInt::sign` -/
def sign (c : Int) : Sign :=
  if c < 0 then .minus else if c = 0 then .noSign else .plus

def rank : Sign → Int
  | .minus => -1
  | .noSign => 0
  | .plus => 1

structure Dec where
  c : Int
  e : Int
  deriving DecidableEq, Repr

namespace Dec

def zero : Dec := ⟨0, 0⟩

def isZero (x : Dec) : Bool :=
  x.c = 0

def isNegative (x : Dec) : Bool :=
  x.c < 0

/-- The loop of `normalized`.  A zero coefficient would make it run forever, so the loop carries
`c ≠ 0` along: this is the invariant that lets the magnitude of `c` drop at every turn. -/
def stripZeros (c : Int) (hc : c ≠ 0) (e : Int) : Exec Dec :=
  if h : c.tmod 10 = 0 then do
    let e' ← i64 (e + 1)
    stripZeros (c.tdiv 10) (by
      intro h0
      have := Int.tmod_add_mul_tdiv c 10
      omega) e'
  else
    pure ⟨c, e⟩
termination_by c.natAbs
decreasing_by
  rw [Int.natAbs_tdiv]
  exact Nat.div_lt_self (by omega) (by decide)

def normalized (x : Dec) : Exec Dec :=
  if h : x.c = 0 then pure zero else stripZeros x.c h x.e

def neg (x : Dec) : Dec :=
  ⟨-x.c, x.e⟩

def abs (x : Dec) : Dec :=
  ⟨|x.c|, x.e⟩

/-- The coefficient of `x` rewritten to the exponent `e`. -/
def atExponent (x : Dec) (e : Int) : Exec Int := do
  assert (e ≤ x.e)
  let k ← i64 (x.e - e)
  pure (x.c * pow10 k.toNat)

/-- The order of the magnitudes of two nonzero values: by the position of the top digit, and only
where that is the same by the aligned coefficients. -/
def cmpMagnitude (a b : Dec) : Exec Ordering := do
  let oa ← i64 (a.e + digits a.c)
  let ob ← i64 (b.e + digits b.c)
  if oa ≠ ob then
    pure (compare oa ob)
  else
    let e := min a.e b.e
    let ca ← a.atExponent e
    let cb ← b.atExponent e
    pure (compare |ca| |cb|)

def cmpValue (a b : Dec) : Exec Ordering :=
  if sign a.c ≠ sign b.c then
    pure (compare (rank (sign a.c)) (rank (sign b.c)))
  else if sign a.c = .noSign then
    pure .eq
  else do
    let magnitude ← cmpMagnitude a b
    pure (if sign a.c = .minus then magnitude.swap else magnitude)

def eqValue (a b : Dec) : Exec Bool := do
  let o ← a.cmpValue b
  pure (o = .eq)

/-- The exact sum, unless forming it would take more than 400 extra digits. -/
def addExact (a b : Dec) : Exec (Option Dec) :=
  if a.isZero then
    pure (some b)
  else if b.isZero then
    pure (some a)
  else do
    let d ← i64 (a.e - b.e)
    let gap ← i64 |d|
    if gap > 400 then
      pure none
    else
      let e := min a.e b.e
      let ca ← a.atExponent e
      let cb ← b.atExponent e
      pure (some ⟨ca + cb, e⟩)

/-- The integer part, towards zero. -/
def trunc (x : Dec) : Exec Dec :=
  if x.e ≥ 0 then
    pure x
  else do
    let k ← i64 (-x.e)
    pure ⟨shed x.c k.toNat, 0⟩

end Dec

end Reference
end RainFloat
