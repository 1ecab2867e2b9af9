import RainFloat.Reference.Dec

/-!
# Format — text renderings of a decimal

Texts are lists of characters.  The scientific form always exists; the plain form is refused when
the stripped exponent is more than 1000 away from zero.
-/

namespace RainFloat
namespace Reference

open Dec

abbrev Text : Type := List Char

/-- `BigInt::to_string` and `i64::to_string` -/
def intText (z : Int) : Text :=
  if z < 0 then '-' :: Nat.toDigits 10 z.natAbs else Nat.toDigits 10 z.natAbs

/-- `str::repeat` of a zero -/
def zeros (k : Nat) : Text :=
  List.replicate k '0'

/-- One integral digit, the remaining significant digits after a point, then the exponent unless it
is zero. -/
def formatScientific (x : Dec) : Exec Text :=
  if x.isZero then
    pure ['0']
  else do
    let n ← x.normalized
    let d := intText |n.c|
    let top ← i64 (n.e + d.length)
    let display ← i64 (top - 1)
    pure <|
      (if n.isNegative then ['-'] else []) ++
      d.take 1 ++
      (if d.length > 1 then '.' :: d.drop 1 else []) ++
      (if display ≠ 0 then 'e' :: intText display else [])

/-- The digits `d` of a coefficient with the point put where the exponent `e` says. -/
def plainDigits (d : Text) (e : Int) : Exec Text :=
  if e ≥ 0 then
    pure (d ++ zeros e.toNat)
  else do
    let p ← i64 (-e)
    let point := p.toNat
    -- The point falls inside the digits or in front of all of them.
    if d.length > point then
      pure (d.take (d.length - point) ++ '.' :: d.drop (d.length - point))
    else
      pure (['0', '.'] ++ zeros (point - d.length) ++ d)

/-- Plain decimal, for a stripped exponent of at most 1000 in magnitude. -/
def formatPlain (x : Dec) : Exec (Except RefError Text) :=
  if x.isZero then
    pure (.ok ['0'])
  else do
    let n ← x.normalized
    let magnitude ← i64 |n.e|
    if magnitude > 1000 then
      pure (.error .unformatableExponent)
    else do
      let digits ← plainDigits (intText |n.c|) n.e
      pure (.ok ((if n.isNegative then ['-'] else []) ++ digits))

end Reference
end RainFloat
