import RainFloat.Binding.Calls
import RainFloat.Reference.Congruence

/-!
# Checks — what the tests require of each call

The tests compare every call of the binding with the reference on the same bytes.  A `Float` result
may differ from the expected one in its representation, and a revert must be the expected error by
its selector.  `PassesChecks` is a contract on which all of these comparisons succeed.

The hash that gives an error signature its selector is a parameter.
-/

namespace RainFloat
namespace Binding

open Foundation Reference

/-! ## Expected errors -/

/-- `RefError::signature` -/
def signature : RefError → String
  | .exponentOverflow => "ExponentOverflow(int256,int256)"
  | .exponentUnderflow => "ExponentUnderflow(int256,int256)"
  | .divisionByZero => "DivisionByZero(int256,int256)"
  | .lossyConversionToFloat => "LossyConversionToFloat(int256,int256)"
  | .lossyConversionFromFloat => "LossyConversionFromFloat(int256,int256)"
  | .negativeFixedDecimalConversion => "NegativeFixedDecimalConversion(int256,int256)"
  | .fixedDecimalOverflow => "FixedDecimalOverflow(int256,int256,uint8)"
  | .unformatableExponent => "UnformatableExponent(int256)"

/-- `selector_signature` -/
def selectorSignature : DecimalFloatErrorSelector → String
  | .exponentOverflow => "ExponentOverflow(int256,int256)"
  | .parseEmptyDecimalString => "ParseEmptyDecimalString(uint256)"
  | .malformedDecimalPoint => "MalformedDecimalPoint(uint256)"
  | .malformedExponentDigits => "MalformedExponentDigits(uint256)"
  | .parseDecimalPrecisionLoss => "ParseDecimalPrecisionLoss(uint256)"
  | .parseDecimalFloatExcessCharacters => "ParseDecimalFloatExcessCharacters()"

/-- `is_revert`: the error is exactly the expected one, decoded as the contract's. -/
def IsRevert (selector : String → UInt32) (got : FloatError) (want : RefError) : Prop :=
  match got with
  | .decimalFloat e => e.selector = selector (signature want)
  | _ => False

/-! ## Comparing a call with the reference -/

/-- The expected result, compared as `same` says, or the expected revert. -/
def CheckWith (selector : String → UInt32) {α β : Type} (same : α → β → Prop)
    (got : Except FloatError α) (want : Except RefError β) : Prop :=
  match got, want with
  | .ok g, .ok w => same g w
  | .error g, .error w => IsRevert selector g w
  | _, _ => False

/-- Where a result is expected, there is one. -/
theorem CheckWith.of_ok {selector : String → UInt32} {α β : Type} {same : α → β → Prop}
    {got : Except FloatError α} {w : β} (h : CheckWith selector same got (.ok w)) :
    ∃ g, got = .ok g ∧ same g w := by
  cases got with
  | ok g => exact ⟨g, rfl, h⟩
  | error e => exact False.elim h

/-- Where a revert is expected, there is this one. -/
theorem CheckWith.of_error {selector : String → UInt32} {α β : Type} {same : α → β → Prop}
    {got : Except FloatError α} {e : RefError} (h : CheckWith selector same got (.error e)) :
    ∃ g, got = .error g ∧ IsRevert selector g e := by
  cases got with
  | ok g => exact False.elim h
  | error g => exact ⟨g, rfl, h⟩

/-- `check_float`: a Float of the expected value, or the expected revert. -/
def CheckFloat (selector : String → UInt32) :
    Except FloatError Float → Except RefError Dec → Prop :=
  CheckWith selector fun g w => (fromBytes g).eqValue w = .ok true

/-- `check`: the expected result, or the expected revert. -/
def Check (selector : String → UInt32) {α : Type} :
    Except FloatError α → Except RefError α → Prop :=
  CheckWith selector fun g w => g = w

/-- `check_parse`: a Float of the expected value, or the expected error selector. -/
def CheckParse (got : Except FloatError Float) (want : ParseRef) : Prop :=
  match got, want with
  | .ok g, .value w => (fromBytes g).eqValue w = .ok true
  | .error (.decimalFloatSelector (.ok s)), .selector w => selectorSignature s = w
  | _, _ => False

/-- The reference returns, and the comparison with what it returns succeeds. -/
def Passes {α β : Type} (check : α → β → Prop) (got : α) (want : Exec β) : Prop :=
  ∃ w, want = .ok w ∧ check got w

/-- The bytes of a Float the reference expects as they are. -/
def HasBytes (got : Except FloatError Float) (want : Dec) : Prop :=
  ∃ b, toBytes want = .ok b ∧ got = .ok b

/-- All comparisons of the tests succeed, on any Floats, integers and literals they may be made
with. -/
structure FloatContract.PassesChecks (contract : FloatContract) (selector : String → UInt32) :
    Prop where
  maxPositiveValue : HasBytes (Float.maxPositiveValue contract) maxPositive
  minPositiveValue : HasBytes (Float.minPositiveValue contract) minPositive
  maxNegativeValue : HasBytes (Float.maxNegativeValue contract) maxNegative
  minNegativeValue : HasBytes (Float.minNegativeValue contract) minNegative
  zero : HasBytes (Float.zero contract) Dec.zero
  add : ∀ a b, Passes (CheckFloat selector) (Float.add contract a b)
    (Reference.add (fromBytes a) (fromBytes b))
  sub : ∀ a b, Passes (CheckFloat selector) (Float.sub contract a b)
    (Reference.sub (fromBytes a) (fromBytes b))
  mul : ∀ a b, Passes (CheckFloat selector) (Float.mul contract a b)
    (Reference.mul (fromBytes a) (fromBytes b))
  div : ∀ a b, Passes (CheckFloat selector) (Float.div contract a b)
    (Reference.div (fromBytes a) (fromBytes b))
  neg : ∀ a, Passes (CheckFloat selector) (Float.neg contract a) (Reference.minus (fromBytes a))
  abs : ∀ a, Passes (CheckFloat selector) (Float.abs contract a) (Reference.abs (fromBytes a))
  inv : ∀ a, Passes (CheckFloat selector) (Float.inv contract a) (Reference.inv (fromBytes a))
  integer : ∀ a, Passes (CheckFloat selector) (Float.integer contract a)
    (Reference.integer (fromBytes a))
  frac : ∀ a, Passes (CheckFloat selector) (Float.frac contract a) (Reference.frac (fromBytes a))
  floor : ∀ a, Passes (CheckFloat selector) (Float.floor contract a)
    (Reference.floor (fromBytes a))
  lt : ∀ a b, Passes (fun got want => got = .ok want) (Float.lt contract a b)
    (compareRef .lt (fromBytes a) (fromBytes b))
  gt : ∀ a b, Passes (fun got want => got = .ok want) (Float.gt contract a b)
    (compareRef .gt (fromBytes a) (fromBytes b))
  eq : ∀ a b, Passes (fun got want => got = .ok want) (Float.eq contract a b)
    (compareRef .eq (fromBytes a) (fromBytes b))
  lte : ∀ a b, Passes (fun got want => got = .ok want) (Float.lte contract a b)
    (compareRef .lte (fromBytes a) (fromBytes b))
  gte : ∀ a b, Passes (fun got want => got = .ok want) (Float.gte contract a b)
    (compareRef .gte (fromBytes a) (fromBytes b))
  min : ∀ a b, Passes HasBytes (Float.min contract a b) (minRef (fromBytes a) (fromBytes b))
  max : ∀ a b, Passes HasBytes (Float.max contract a b) (maxRef (fromBytes a) (fromBytes b))
  isZero : ∀ a, Float.isZero contract a = .ok (fromBytes a).isZero
  fromFixedDecimal : ∀ v d, Passes (CheckFloat selector) (Float.fromFixedDecimal contract v d)
    (Reference.fromFixedDecimalLossless v d)
  fromFixedDecimalLossy : ∀ v d, Passes
    (fun got want => ∃ g, got = .ok (g, want.2) ∧ (fromBytes g).eqValue want.1 = .ok true)
    (Float.fromFixedDecimalLossy contract v d) (Reference.fromFixedDecimalLossy v d)
  toFixedDecimal : ∀ a d, Passes (Check selector) (Float.toFixedDecimal contract a d)
    (Reference.toFixedDecimalLossless (fromBytes a) d)
  toFixedDecimalLossy : ∀ a d, Passes (Check selector) (Float.toFixedDecimalLossy contract a d)
    (Reference.toFixedDecimalLossy (fromBytes a) d)
  parse : ∀ l : Literal, ReadSafe l → Passes CheckParse
    (Float.parse contract.toContract l.text) (parseRef l.text)
  formatScientific : ∀ a, Passes (fun got want => got = .ok want)
    (Float.formatWithScientific contract.toContract a true)
    (Reference.formatScientific (fromBytes a))
  formatPlain : ∀ a, Passes (Check selector)
    (Float.formatWithScientific contract.toContract a false) (Reference.formatPlain (fromBytes a))

/-! ## Reading a comparison back -/

/-- Values found equal are equal. -/
theorem sameFloat_of_eqValue {x y : Dec} (hx : IsFloat x) (hy : IsFloat y)
    (h : x.eqValue y = .ok true) : SameFloat x y :=
  ⟨hx, hy, ((meets_eqValue (Or.inr ⟨hx.i64Safe, hy.i64Safe⟩) :
    Meets (fun _ => False) (x.eqValue y) _).of_eq_ok h).1 rfl⟩

theorem fromBytes_of_toBytes {x : Dec} {b : B256} (h : toBytes x = .ok b) : fromBytes b = x :=
  toBytes_eq_ok_iff.1 h

end Binding
end RainFloat
