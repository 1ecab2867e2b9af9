import RainFloat.Binding.Serde
import RainFloat.Reference.Rendering

/-!
# ContractLaws — what is relied on of the contract

The contract is compiled from sources outside this repository; the reference and its tests say what
it does.  Two descriptions are used:

* `FollowsReference`: it formats and parses as the reference functions do;
* `ParsesExactly`: it accepts exactly the literals whose value is the value of a Float.
-/

namespace RainFloat
namespace Binding

open Foundation Reference

/-- `parse` returns this Float without an error selector. -/
def Contract.Accepts (contract : Contract) (s : Text) (b : B256) : Prop :=
  contract.parse s = .returned (.ok (0, b))

/-- `parse` returns an error selector. -/
def Contract.Rejects (contract : Contract) (s : Text) : Prop :=
  ∃ selector b, selector ≠ 0 ∧ contract.parse s = .returned (.ok (selector, b))

/-- The contract returns or reverts as the reference functions say. -/
structure Contract.FollowsReference (contract : Contract) : Prop where
  format_scientific : ∀ a t, formatScientific (fromBytes a) = .ok t →
    contract.format a true = .returned (.ok t)
  format_plain : ∀ a t, formatPlain (fromBytes a) = .ok (.ok t) →
    contract.format a false = .returned (.ok t)
  format_plain_reverts : ∀ a e, formatPlain (fromBytes a) = .ok (.error e) →
    ∃ output, contract.format a false = .reverted output
  parse_value : ∀ s v, IsLiteral s → parseRef s = .ok (.value v) →
    ∃ b, contract.Accepts s b ∧ (fromBytes b).val = v.val
  parse_selector : ∀ s signature, IsLiteral s → parseRef s = .ok (.selector signature) →
    contract.Rejects s
  parse_malformed : ∀ s, ¬ IsLiteral s → contract.Rejects s

/-- The contract accepts exactly the literals of Float values. -/
structure Contract.ParsesExactly (contract : Contract) : Prop where
  parse_exact : ∀ l : Literal, (literalDec l).val ∈ Representable →
    ∃ b, contract.Accepts l.text b ∧ (fromBytes b).val = (literalDec l).val
  parse_inexact : ∀ l : Literal, (literalDec l).val ∉ Representable → contract.Rejects l.text
  parse_malformed : ∀ s, ¬ IsLiteral s → contract.Rejects s

/-! ## What `Float::parse` makes of it -/

variable {contract : Contract} {s : Text}

theorem Contract.Accepts.parse_eq {b : B256} (h : contract.Accepts s b) :
    Float.parse contract s = .ok b := by
  rw [Float.parse, h]
  rfl

theorem Contract.Rejects.parse_error (h : contract.Rejects s) :
    ∃ e, Float.parse contract s = .error e := by
  rcases h with ⟨selector, b, hne, hparse⟩
  refine ⟨.decimalFloatSelector (DecimalFloatErrorSelector.tryFrom selector), ?_⟩
  rw [Float.parse, hparse]
  exact if_pos hne

/-- A text is parsed first, and only then read as hex. -/
theorem parseFloatStringOrHex_of_ok {lib : HexLibrary} {f : Float}
    (h : Float.parse contract s = .ok f) : parseFloatStringOrHex contract lib s = .ok f := by
  rw [parseFloatStringOrHex, h]

theorem parseFloatStringOrHex_of_error {lib : HexLibrary} {e : FloatError}
    (h : Float.parse contract s = .error e) :
    parseFloatStringOrHex contract lib s = Float.fromHex lib s := by
  rw [parseFloatStringOrHex, h]

end Binding
end RainFloat
