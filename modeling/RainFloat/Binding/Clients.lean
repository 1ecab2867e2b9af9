import RainFloat.Binding.Checks
import RainFloat.Foundation.Session

/-!
# Clients — whole computations with Floats

A client holds Floats behind handles and makes any of the calls on them, each chosen from the
replies to the calls before.  `crateAnswers` is the binding over a contract, `refAnswers` the
reference.
-/

namespace RainFloat
namespace Binding

open Foundation Reference

/-! ## Calls and replies -/

inductive Constant
  | maxPositive
  | minPositive
  | maxNegative
  | minNegative
  | zero
  deriving DecidableEq, Repr

inductive UnaryCall
  | neg
  | abs
  | inv
  | integer
  | frac
  | floor
  deriving DecidableEq, Repr

inductive BinaryCall
  | add
  | sub
  | mul
  | div
  deriving DecidableEq, Repr

/-- A literal within reach of the reference's reading. -/
abbrev SafeLiteral : Type :=
  { l : Literal // ReadSafe l }

/-- A call, apart from the Floats it is made on: the constants, the operators and methods of one
operand and of two, the comparisons, the conversions from and to fixed-point integers, the reading
of a decimal literal and the writing of either form.  Other texts are not read, and no call gets at
the bytes of a Float. -/
inductive FloatCall
  | constant (c : Constant)
  | unary (op : UnaryCall)
  | binary (op : BinaryCall)
  | compare (c : Comparison)
  | min
  | max
  | isZero
  | fromFixedDecimal (value : U256) (decimals : UInt8)
  | fromFixedDecimalLossy (value : U256) (decimals : UInt8)
  | toFixedDecimal (decimals : UInt8)
  | toFixedDecimalLossy (decimals : UInt8)
  | parse (l : SafeLiteral)
  | format (scientific : Bool)

/-- What a client sees of a result.  A Float itself stays behind its handle. -/
inductive Reply
  | float
  | floatLossy (lossless : Bool)
  | truth (b : Bool)
  | amount (v : U256)
  | amountLossy (v : U256) (lossless : Bool)
  | text (t : Text)
  | revert (selector : UInt32)
  | rejected (signature : String)
  | failure
  | panic
  deriving DecidableEq

/-! ## The binding -/

/-- What a client sees of an error. -/
def errorReply : FloatError → Reply
  | .decimalFloat e => .revert e.selector
  | .decimalFloatSelector (.ok s) => .rejected (selectorSignature s)
  | _ => .failure

/-- The answer that a result of the binding is. -/
def crateAnswer {α : Type} (result : Except FloatError α) (reply : α → Reply × Option Float) :
    Reply × Option Float :=
  match result with
  | .ok v => reply v
  | .error e => (errorReply e, none)

/-- A Float is handed out. -/
def yieldFloat {α : Type} (v : α) : Reply × Option α :=
  (.float, some v)

/-- A Float is handed out, and whether it is exact. -/
def yieldLossy {α : Type} (r : α × Bool) : Reply × Option α :=
  (.floatLossy r.2, some r.1)

/-- Something else is shown. -/
def showReply {α β : Type} (reply : β → Reply) (v : β) : Reply × Option α :=
  (reply v, none)

def constantCall (contract : FloatContract) : Constant → Except FloatError Float
  | .maxPositive => Float.maxPositiveValue contract
  | .minPositive => Float.minPositiveValue contract
  | .maxNegative => Float.maxNegativeValue contract
  | .minNegative => Float.minNegativeValue contract
  | .zero => Float.zero contract

def unaryCall (contract : FloatContract) : UnaryCall → Float → Except FloatError Float
  | .neg => Float.neg contract
  | .abs => Float.abs contract
  | .inv => Float.inv contract
  | .integer => Float.integer contract
  | .frac => Float.frac contract
  | .floor => Float.floor contract

def binaryCall (contract : FloatContract) : BinaryCall → Float → Float → Except FloatError Float
  | .add => Float.add contract
  | .sub => Float.sub contract
  | .mul => Float.mul contract
  | .div => Float.div contract

def compareCall (contract : FloatContract) : Comparison → Float → Float → Except FloatError Bool
  | .lt => Float.lt contract
  | .gt => Float.gt contract
  | .eq => Float.eq contract
  | .lte => Float.lte contract
  | .gte => Float.gte contract

/-- The calls of the binding. -/
def crateAnswers (contract : FloatContract) : Answers FloatCall Reply Float
  | .constant c => noOperand (crateAnswer (constantCall contract c) yieldFloat)
  | .unary op => oneOperand fun a => crateAnswer (unaryCall contract op a) yieldFloat
  | .binary op => twoOperands fun a b => crateAnswer (binaryCall contract op a b) yieldFloat
  | .compare c => twoOperands fun a b =>
      crateAnswer (compareCall contract c a b) (showReply .truth)
  | .min => twoOperands fun a b => crateAnswer (Float.min contract a b) yieldFloat
  | .max => twoOperands fun a b => crateAnswer (Float.max contract a b) yieldFloat
  | .isZero => oneOperand fun a => crateAnswer (Float.isZero contract a) (showReply .truth)
  | .fromFixedDecimal v d =>
      noOperand (crateAnswer (Float.fromFixedDecimal contract v d) yieldFloat)
  | .fromFixedDecimalLossy v d =>
      noOperand (crateAnswer (Float.fromFixedDecimalLossy contract v d) yieldLossy)
  | .toFixedDecimal d => oneOperand fun a =>
      crateAnswer (Float.toFixedDecimal contract a d) (showReply .amount)
  | .toFixedDecimalLossy d => oneOperand fun a =>
      crateAnswer (Float.toFixedDecimalLossy contract a d)
        (showReply fun r => .amountLossy r.1 r.2)
  | .parse l => noOperand (crateAnswer (Float.parse contract.toContract l.1.text) yieldFloat)
  | .format scientific => oneOperand fun a =>
      crateAnswer (Float.formatWithScientific contract.toContract a scientific) (showReply .text)

/-! ## The reference -/

/-- The answer that a result of the reference is. -/
def refAnswer {α : Type} (selector : String → UInt32) (result : Exec (Except RefError α))
    (reply : α → Reply × Option Dec) : Reply × Option Dec :=
  match result with
  | .ok (.ok v) => reply v
  | .ok (.error e) => (.revert (selector (signature e)), none)
  | .error _ => (.panic, none)

def parseAnswer : Exec ParseRef → Reply × Option Dec
  | .ok (.value v) => yieldFloat v
  | .ok (.selector s) => (.rejected s, none)
  | .error _ => (.panic, none)

def constantRef : Constant → Dec
  | .maxPositive => maxPositive
  | .minPositive => minPositive
  | .maxNegative => maxNegative
  | .minNegative => minNegative
  | .zero => Dec.zero

def unaryRef : UnaryCall → Dec → Exec (Except RefError Dec)
  | .neg => Reference.minus
  | .abs => Reference.abs
  | .inv => Reference.inv
  | .integer => Reference.integer
  | .frac => Reference.frac
  | .floor => Reference.floor

def binaryRef : BinaryCall → Dec → Dec → Exec (Except RefError Dec)
  | .add => Reference.add
  | .sub => Reference.sub
  | .mul => Reference.mul
  | .div => Reference.div

def formatRef (scientific : Bool) (x : Dec) : Exec (Except RefError Text) :=
  if scientific then do
    let t ← formatScientific x
    pure (.ok t)
  else
    formatPlain x

/-- A run of the reference that cannot end in a revert. -/
def succeeds {α : Type} (m : Exec α) : Exec (Except RefError α) := do
  let v ← m
  pure (.ok v)

/-- The calls as the reference answers them. -/
def refAnswers (selector : String → UInt32) : Answers FloatCall Reply Dec
  | .constant c => noOperand (yieldFloat (constantRef c))
  | .unary op => oneOperand fun a => refAnswer selector (unaryRef op a) yieldFloat
  | .binary op => twoOperands fun a b => refAnswer selector (binaryRef op a b) yieldFloat
  | .compare c => twoOperands fun a b =>
      refAnswer selector (succeeds (compareRef c a b)) (showReply .truth)
  | .min => twoOperands fun a b => refAnswer selector (succeeds (minRef a b)) yieldFloat
  | .max => twoOperands fun a b => refAnswer selector (succeeds (maxRef a b)) yieldFloat
  | .isZero => oneOperand fun a => showReply .truth a.isZero
  | .fromFixedDecimal v d =>
      noOperand (refAnswer selector (fromFixedDecimalLossless v d) yieldFloat)
  | .fromFixedDecimalLossy v d =>
      noOperand (refAnswer selector (succeeds (fromFixedDecimalLossy v d)) yieldLossy)
  | .toFixedDecimal d => oneOperand fun a =>
      refAnswer selector (toFixedDecimalLossless a d) (showReply .amount)
  | .toFixedDecimalLossy d => oneOperand fun a =>
      refAnswer selector (toFixedDecimalLossy a d) (showReply fun r => .amountLossy r.1 r.2)
  | .parse l => noOperand (parseAnswer (parseRef l.1.text))
  | .format scientific => oneOperand fun a =>
      refAnswer selector (formatRef scientific a) (showReply .text)

end Binding
end RainFloat
