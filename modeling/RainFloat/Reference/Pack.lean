import RainFloat.Reference.Dec

/-!
# Pack — rounding a decimal into a Float

`pack` chooses, among a handful of exponents, the Float closest to a decimal without exceeding its
magnitude.  Every arithmetic, parse and fixed-decimal expectation of the reference goes through it.
-/

namespace RainFloat
namespace Reference

open Dec

/-- The outcome of `pack`: a Float and whether it is the value packed, or the side on which the
value leaves the exponent range. -/
inductive Packed
  | value (v : Dec) (lossless : Bool)
  | underflow
  | overflow
  deriving DecidableEq, Repr

def maxPositive : Dec := ⟨int224Max, i32Max⟩
def minPositive : Dec := ⟨1, i32Min⟩
def maxNegative : Dec := ⟨-1, i32Min⟩
def minNegative : Dec := ⟨int224Min, i32Max⟩

/-- The coefficient of `x` at the exponent `f`, truncated and then clamped into an int224.  Scaling
up stops at 80 digits: any nonzero coefficient is past the bounds by then. -/
def coefficientAt (x : Dec) (f : Int) : Exec Int := do
  let c ←
    if f ≥ x.e then do
      let k ← i64 (f - x.e)
      pure (shed x.c k.toNat)
    else do
      let k ← i64 (x.e - f)
      pure (x.c * pow10 (min k.toNat 80))
  clamp c int224Min int224Max

/-- `lo..=hi` over `i64`. -/
def rangeInclusive (lo hi : Int) : List Int :=
  (List.range (hi + 1 - lo).toNat).map fun (k : Nat) => lo + k

/-- One turn of the loop in `nearestWithin`: the candidate at `f`, if it beats the best so far. -/
def tryExponent (x : Dec) (lo hi : Int) (best : Dec) (f : Int) : Exec Dec := do
  let f ← clamp f lo hi
  let c ← coefficientAt x f
  let candidate : Dec := ⟨c, f⟩
  let o ← candidate.abs.cmpValue best.abs
  -- On a tie the candidate tried first stays.
  pure (if o = .gt then candidate else best)

def nearestWithin (x : Dec) (lo hi : Int) : Exec Dec := do
  let top ← i64 (x.e + digits x.c)
  let first ← i64 (top - 70)
  let last ← i64 (top - 66)
  -- The window first, then the ends of the range.
  (rangeInclusive first last ++ [lo, hi]).foldlM (tryExponent x lo hi) zero

/-- Whether `u` lies beyond the extreme Floats. -/
def beyondExtremes (u : Dec) : Exec Bool := do
  let above ← u.cmpValue maxPositive
  if above = .gt then
    pure true
  else do
    let below ← u.cmpValue minNegative
    pure (below = .lt)

/-- The Float closest to `x` not exceeding its magnitude, and whether it is `x`. -/
def pack (x : Dec) : Exec Packed :=
  if x.isZero then
    pure (.value zero true)
  else do
    let top ← i64 (x.e + digits x.c)
    let first ← i64 (top - 70)
    let last ← i64 (top - 66)
    -- A window of exponents around the top digit stands for all of them.
    let unbounded ← nearestWithin x first last
    let beyond ← beyondExtremes unbounded
    if beyond then
      pure .overflow
    else do
      let best ← nearestWithin x i32Min i32Max
      if best.isZero then
        pure .underflow
      else do
        let lossless ← best.eqValue x
        pure (.value best lossless)

def arithmetic (x : Dec) : Exec (Except RefError Dec) := do
  let p ← pack x
  match p with
  | .value v _ => pure (.ok v)
  | .underflow => pure (.error .exponentUnderflow)
  | .overflow => pure (.error .exponentOverflow)

end Reference
end RainFloat
