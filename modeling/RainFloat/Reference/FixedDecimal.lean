import RainFloat.Reference.Pack

/-!
# FixedDecimal — conversions to and from fixed-point integers

A fixed-point value with `d` decimals is the integer `v` standing for `v × 10^-d`.
-/

namespace RainFloat
namespace Reference

open Dec

/-- `alloy::primitives::U256` -/
abbrev U256 : Type := Fin (2 ^ 256)

def U256.max : U256 := ⟨2 ^ 256 - 1, by decide⟩

def u256ToBig (v : U256) : Int :=
  v.val

/-- Reads the decimal text of `v` back as a `U256`, which fails outside the type's range. -/
def bigToU256 (v : Int) : Exec U256 :=
  unwrap (if h : 0 ≤ v ∧ v < 2 ^ 256 then some ⟨v.toNat, by omega⟩ else none)

def fromFixedDecimalLossy (value : U256) (decimals : UInt8) : Exec (Dec × Bool) := do
  let e ← i64 (-(decimals.toNat : Int))
  let p ← pack ⟨u256ToBig value, e⟩
  match p with
  | .value v lossless => pure (v, lossless)
  | _ => throw .unreachable

def fromFixedDecimalLossless (value : U256) (decimals : UInt8) : Exec (Except RefError Dec) := do
  let r ← fromFixedDecimalLossy value decimals
  match r with
  | (v, true) => pure (.ok v)
  | (_, false) => pure (.error .lossyConversionToFloat)

/-- `int` in `to_fixed_decimal_lossy`: the integer that a truncated decimal is. -/
def integerOf (t : Dec) : Exec Int :=
  if t.e > 0 then t.atExponent 0 else pure t.c

def toFixedDecimalLossy (x : Dec) (decimals : UInt8) : Exec (Except RefError (U256 × Bool)) :=
  if x.isNegative then
    pure (.error .negativeFixedDecimalConversion)
  else if x.isZero then
    pure (.ok (0, true))
  else do
    let e ← i64 (x.e + decimals.toNat)
    let scaled : Dec := ⟨x.c, e⟩
    -- Past `10^80` not even a coefficient of one fits a `U256`.
    if scaled.e > 80 then
      pure (.error .fixedDecimalOverflow)
    else do
      let t ← scaled.trunc
      let int ← integerOf t
      if int > u256ToBig U256.max then
        pure (.error .fixedDecimalOverflow)
      else do
        let v ← bigToU256 int
        let lossless ← t.eqValue scaled
        pure (.ok (v, lossless))

def toFixedDecimalLossless (x : Dec) (decimals : UInt8) : Exec (Except RefError U256) := do
  let r ← toFixedDecimalLossy x decimals
  match r with
  | .error err => pure (.error err)
  | .ok (v, true) => pure (.ok v)
  | .ok (_, false) => pure (.error .lossyConversionFromFloat)

end Reference
end RainFloat
