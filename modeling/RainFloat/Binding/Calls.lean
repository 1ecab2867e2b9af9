import RainFloat.Binding.Float
import RainFloat.Reference.FixedDecimal

/-!
# Calls — the functions of a Float that go through the contract

Each function encodes its arguments, calls the contract function of the same purpose and hands on
what comes back decoded.  `FloatContract` adds to `Contract` the functions that no text goes
through.
-/

namespace RainFloat
namespace Binding

open Reference

/-- The functions of the contract the binding calls. -/
structure FloatContract extends Contract where
  maxPositiveValue : CallResult B256
  minPositiveValue : CallResult B256
  maxNegativeValue : CallResult B256
  minNegativeValue : CallResult B256
  zero : CallResult B256
  add : B256 → B256 → CallResult B256
  sub : B256 → B256 → CallResult B256
  mul : B256 → B256 → CallResult B256
  div : B256 → B256 → CallResult B256
  minus : B256 → CallResult B256
  abs : B256 → CallResult B256
  inv : B256 → CallResult B256
  eq : B256 → B256 → CallResult Bool
  lt : B256 → B256 → CallResult Bool
  gt : B256 → B256 → CallResult Bool
  lte : B256 → B256 → CallResult Bool
  gte : B256 → B256 → CallResult Bool
  integer : B256 → CallResult B256
  frac : B256 → CallResult B256
  floor : B256 → CallResult B256
  min : B256 → B256 → CallResult B256
  max : B256 → B256 → CallResult B256
  isZero : B256 → CallResult Bool
  fromFixedDecimalLossless : U256 → UInt8 → CallResult B256
  toFixedDecimalLossless : B256 → UInt8 → CallResult U256
  fromFixedDecimalLossy : U256 → UInt8 → CallResult (B256 × Bool)
  toFixedDecimalLossy : B256 → UInt8 → CallResult (U256 × Bool)

/-- `execute_call` with the decoded return data handed on as it is. -/
def callContract {α : Type} (contract : FloatContract) (result : CallResult α) :
    Except FloatError α :=
  executeCall contract.toContract result fun decoded => .ok decoded

namespace Float

variable (contract : FloatContract)

/-! ## Constants -/

def maxPositiveValue : Except FloatError Float :=
  callContract contract contract.maxPositiveValue

def minPositiveValue : Except FloatError Float :=
  callContract contract contract.minPositiveValue

def maxNegativeValue : Except FloatError Float :=
  callContract contract contract.maxNegativeValue

def minNegativeValue : Except FloatError Float :=
  callContract contract contract.minNegativeValue

def zero : Except FloatError Float :=
  callContract contract contract.zero

/-! ## Arithmetic -/

def add (self b : Float) : Except FloatError Float :=
  callContract contract (contract.add self b)

def sub (self b : Float) : Except FloatError Float :=
  callContract contract (contract.sub self b)

def mul (self b : Float) : Except FloatError Float :=
  callContract contract (contract.mul self b)

def div (self b : Float) : Except FloatError Float :=
  callContract contract (contract.div self b)

/-- `Neg::neg`, which calls `minus`. -/
def neg (self : Float) : Except FloatError Float :=
  callContract contract (contract.minus self)

def abs (self : Float) : Except FloatError Float :=
  callContract contract (contract.abs self)

def inv (self : Float) : Except FloatError Float :=
  callContract contract (contract.inv self)

def integer (self : Float) : Except FloatError Float :=
  callContract contract (contract.integer self)

def frac (self : Float) : Except FloatError Float :=
  callContract contract (contract.frac self)

def floor (self : Float) : Except FloatError Float :=
  callContract contract (contract.floor self)

/-! ## Comparisons -/

def lt (self b : Float) : Except FloatError Bool :=
  callContract contract (contract.lt self b)

def eq (self b : Float) : Except FloatError Bool :=
  callContract contract (contract.eq self b)

def gt (self b : Float) : Except FloatError Bool :=
  callContract contract (contract.gt self b)

def lte (self b : Float) : Except FloatError Bool :=
  callContract contract (contract.lte self b)

def gte (self b : Float) : Except FloatError Bool :=
  callContract contract (contract.gte self b)

def min (self b : Float) : Except FloatError Float :=
  callContract contract (contract.min self b)

def max (self b : Float) : Except FloatError Float :=
  callContract contract (contract.max self b)

def isZero (self : Float) : Except FloatError Bool :=
  callContract contract (contract.isZero self)

/-! ## Fixed-point integers -/

def fromFixedDecimal (value : U256) (decimals : UInt8) : Except FloatError Float :=
  callContract contract (contract.fromFixedDecimalLossless value decimals)

def toFixedDecimal (self : Float) (decimals : UInt8) : Except FloatError U256 :=
  callContract contract (contract.toFixedDecimalLossless self decimals)

def fromFixedDecimalLossy (value : U256) (decimals : UInt8) : Except FloatError (Float × Bool) :=
  callContract contract (contract.fromFixedDecimalLossy value decimals)

def toFixedDecimalLossy (self : Float) (decimals : UInt8) : Except FloatError (U256 × Bool) :=
  callContract contract (contract.toFixedDecimalLossy self decimals)

end Float

end Binding
end RainFloat
