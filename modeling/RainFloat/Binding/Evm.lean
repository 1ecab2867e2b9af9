import RainFloat.Reference.Bytes
import RainFloat.Reference.Format

/-!
# Evm — calls to the contract and how their outcomes become results

The contract runs in an in-memory EVM and is not part of this development: `Contract` says what a
call to each of its functions comes back with, the return data already ABI-decoded.  `executeCall`
turns such an outcome into a result.
-/

namespace RainFloat
namespace Binding

open Reference

abbrev Bytes : Type := List UInt8

/-- The error selectors `parse` returns instead of reverting. -/
inductive DecimalFloatErrorSelector
  | exponentOverflow
  | parseEmptyDecimalString
  | malformedDecimalPoint
  | malformedExponentDigits
  | parseDecimalPrecisionLoss
  | parseDecimalFloatExcessCharacters
  deriving DecidableEq, Repr

/-- `TryFrom<FixedBytes<4>>`, which keeps a selector it does not know. -/
def DecimalFloatErrorSelector.tryFrom (selector : UInt32) :
    Except UInt32 DecimalFloatErrorSelector :=
  if selector = 0xd556b111 then .ok .exponentOverflow
  else if selector = 0x34bd2069 then .ok .parseEmptyDecimalString
  else if selector = 0x7bfa48af then .ok .malformedDecimalPoint
  else if selector = 0x013b2aaa then .ok .malformedExponentDigits
  else if selector = 0x32b8b8be then .ok .parseDecimalPrecisionLoss
  else if selector = 0xad384e87 then .ok .parseDecimalFloatExcessCharacters
  else .error selector

/-- `DecimalFloatErrors`: an error of the contract, by its selector and the words of its
arguments. -/
structure DecimalFloatErrors where
  selector : UInt32
  arguments : List ℕ
  deriving DecidableEq, Repr

/-- `FloatError`.  What a dependency reports is kept as the text it displays. -/
inductive FloatError
  | evm (detail : Text)
  | revert (output : Bytes)
  | halt (reason : Text)
  | unexpectedSuccess (reason : Text)
  | alloySolTypes (detail : Text)
  | decimalFloat (error : DecimalFloatErrors)
  | decimalFloatSelector (selector : Except UInt32 DecimalFloatErrorSelector)
  | access
  | invalidHex (hex : Text)
  | alloyFromHexError (detail : Text)
  | jsSysError (detail : Text)
  deriving DecidableEq, Repr

/-- The outcome of a call: the EVM could not be reached or run, or how the execution ended. -/
inductive CallResult (α : Type)
  | access
  | evm (detail : Text)
  | returned (output : Except Text α)
  | unexpectedSuccess (reason : Text)
  | reverted (output : Bytes)
  | halted (reason : Text)

/-- The functions of the contract that texts go through, and the decoding of its errors. -/
structure Contract where
  parse : Text → CallResult (UInt32 × B256)
  format : B256 → Bool → CallResult Text
  decodeError : Bytes → Option DecimalFloatErrors

variable {α β : Type}

/-- `revert_error` -/
def revertError (contract : Contract) (output : Bytes) : FloatError :=
  match contract.decodeError output with
  | some error => .decimalFloat error
  | none => .revert output

/-- `execute_call`, with `process` applied to the decoded return data. -/
def executeCall (contract : Contract) (result : CallResult α)
    (process : α → Except FloatError β) : Except FloatError β :=
  match result with
  | .access => .error .access
  | .evm detail => .error (.evm detail)
  | .returned (.ok output) => process output
  | .returned (.error detail) => .error (.alloySolTypes detail)
  | .unexpectedSuccess reason => .error (.unexpectedSuccess reason)
  | .reverted output => .error (revertError contract output)
  | .halted reason => .error (.halt reason)

end Binding
end RainFloat
