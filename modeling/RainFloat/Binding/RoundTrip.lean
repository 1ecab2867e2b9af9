import RainFloat.Binding.ReferenceContract

/-!
# RoundTrip — a Float survives its text

* `exists_formatFloat`: `formatFloat` never fails, whichever of its two forms it falls back to, and
  its text is a literal of the value;
* `formatFloat_congr`: the text depends on the value alone;
* `text_round_trip`: reading the text back yields the value, for a Float and for an optional one.
-/

namespace RainFloat
namespace Binding

open Foundation Reference

variable {contract : Contract} {lib : HexLibrary}

/-! ## Formatting -/

theorem formatFloat_of_plain (hk : contract.FollowsReference) {x : Float} {t : Text}
    (h : formatPlain (fromBytes x) = .ok (.ok t)) : formatFloat contract x = .ok t := by
  have hcall : Float.formatWithScientific contract x false = .ok t := by
    rw [Float.formatWithScientific, hk.format_plain x t h]
    rfl
  rw [formatFloat, hcall]

/-- Where the plain form is refused the scientific one is written. -/
theorem formatFloat_of_scientific (hk : contract.FollowsReference) {x : Float} {e : RefError}
    {t : Text} (h : formatPlain (fromBytes x) = .ok (.error e))
    (ht : formatScientific (fromBytes x) = .ok t) : formatFloat contract x = .ok t := by
  rcases hk.format_plain_reverts x e h with ⟨output, hrevert⟩
  have hplain : Float.formatWithScientific contract x false =
      .error (revertError contract output) := by
    rw [Float.formatWithScientific, hrevert]
    rfl
  have hscientific : Float.formatWithScientific contract x true = .ok t := by
    rw [Float.formatWithScientific, hk.format_scientific x t ht]
    rfl
  rw [formatFloat, hplain]
  exact hscientific

theorem exists_formatFloat (hk : contract.FollowsReference) (x : Float) :
    ∃ l : Literal, formatFloat contract x = .ok l.text ∧ Renders (fromBytes x) l := by
  have hx := isFloat_fromBytes x
  rcases exists_plain hx with ⟨n, -, -, -, ⟨-, l, hl, -, hrender⟩ | ⟨-, herr⟩⟩
  · exact ⟨l, formatFloat_of_plain hk hl, hrender⟩
  · rcases exists_scientific hx with ⟨l, hl, hrender⟩
    exact ⟨l, formatFloat_of_scientific hk herr hl, hrender⟩

theorem formatFloat_congr (hk : contract.FollowsReference) {x y : Float}
    (hv : (fromBytes x).val = (fromBytes y).val) :
    formatFloat contract x = formatFloat contract y := by
  have hx := isFloat_fromBytes x
  have hy := isFloat_fromBytes y
  -- Equal values take the same branch, as the plain form exists for both or neither.
  have hplain := formatPlain_congr hx hy hv
  rcases exists_plain hx with ⟨n, -, -, -, ⟨-, l, hl, -, -⟩ | ⟨-, herr⟩⟩
  · rw [formatFloat_of_plain hk hl, formatFloat_of_plain hk (hplain ▸ hl)]
  · rcases exists_scientific hx with ⟨l, hl, -⟩
    rw [formatFloat_of_scientific hk herr hl, formatFloat_of_scientific hk (hplain ▸ herr)
      (formatScientific_congr hx hy hv ▸ hl)]

/-! ## Reading back -/

/-- The contract reads a literal of a Float value as that value. -/
theorem exists_parse (hk : contract.FollowsReference) {x : Float} {l : Literal}
    (h : Renders (fromBytes x) l) :
    ∃ y, Float.parse contract l.text = .ok y ∧ (fromBytes y).val = (fromBytes x).val := by
  rcases (h.reads (isFloat_fromBytes x)).2 with ⟨v, hparse, -, hval⟩
  rcases hk.parse_value l.text v l.isLiteral_text hparse with ⟨y, hy, hyval⟩
  exact ⟨y, hy.parse_eq, hyval.trans hval⟩

/-- Hex text is no literal, so it is left to the hex functions, which restore the bytes. -/
theorem parseFloatStringOrHex_asHex (hk : contract.FollowsReference) (hlib : lib.Documented)
    (x : Float) : parseFloatStringOrHex contract lib (x.asHex lib) = .ok x := by
  have hread := hlib.fromHex_asHex x
  rcases hlib.encodePrefixed x with ⟨t, ht, -⟩
  have hmalformed : ¬ IsLiteral (x.asHex lib) := by
    rw [Float.asHex, ht]
    exact not_isLiteral_of_hexPrefix t
  rcases (hk.parse_malformed _ hmalformed).parse_error with ⟨e, he⟩
  rw [parseFloatStringOrHex_of_error he, hread]

/-- `y` is read from the text of `x` and has its value and its text. -/
def TextRestores (contract : Contract) (lib : HexLibrary) (x : Float) (t : Text) (y : Float) :
    Prop :=
  formatFloat contract x = .ok t ∧ IsLiteral t ∧ parseFloatStringOrHex contract lib t = .ok y ∧
    (fromBytes y).val = (fromBytes x).val ∧ formatFloat contract y = .ok t

theorem exists_textRestores (hk : contract.FollowsReference) (lib : HexLibrary) (x : Float) :
    ∃ t y, TextRestores contract lib x t y := by
  rcases exists_formatFloat hk x with ⟨l, hl, hrender⟩
  rcases exists_parse hk hrender with ⟨y, hy, hval⟩
  exact ⟨l.text, y, hl, l.isLiteral_text, parseFloatStringOrHex_of_ok hy, hval,
    (formatFloat_congr hk hval).trans hl⟩

/-! ## Through JSON -/

theorem TextRestores.serialize {x y : Float} {t : Text} (h : TextRestores contract lib x t y) :
    serializeFloatAsString contract x = .ok (.string t) ∧
      serializeFloatAsString contract y = .ok (.string t) := by
  rcases h with ⟨hx, -, -, -, hy⟩
  constructor
  · rw [serializeFloatAsString, hx]
    rfl
  · rw [serializeFloatAsString, hy]
    rfl

theorem TextRestores.deserialize {x y : Float} {t : Text} (h : TextRestores contract lib x t y) :
    deserializeFloatFromNumberOrString contract lib (.string t) = .ok y ∧
      deserializeOptionFloatFromNumberOrString contract lib (.string t) = .ok (some y) := by
  have hread : (FloatSerdeInput.string t).read contract lib = .ok y := by
    rw [FloatSerdeInput.read, h.2.2.1]
    rfl
  constructor
  · exact hread
  · change ((FloatSerdeInput.string t).read contract lib).map some = _
    rw [hread]
    rfl

/-- Absent values correspond, and present ones have one value. -/
def SameValue : Option Float → Option Float → Prop
  | some x, some y => (fromBytes y).val = (fromBytes x).val
  | none, none => True
  | _, _ => False

/-- Every Float is written as a literal that is read back as its value and written identically
again, its hex text is read back as its bytes, and both serializers restore what they wrote. -/
theorem text_round_trip (hk : contract.FollowsReference) (hlib : lib.Documented) (x : Float)
    (o : Option Float) :
    (∃ t y, TextRestores contract lib x t y ∧
      serializeFloatAsString contract x = .ok (.string t) ∧
      deserializeFloatFromNumberOrString contract lib (.string t) = .ok y ∧
      serializeFloatAsString contract y = .ok (.string t)) ∧
    parseFloatStringOrHex contract lib (x.asHex lib) = .ok x ∧
    deserializeFloatFromNumberOrString contract lib (.string (x.asHex lib)) = .ok x ∧
    (∃ json o', serializeOptionFloat contract o = .ok json ∧
      deserializeOptionFloatFromNumberOrString contract lib json = .ok o' ∧ SameValue o o' ∧
      serializeOptionFloat contract o' = .ok json ∧ (json = .null ↔ o = none)) := by
  have hhex := parseFloatStringOrHex_asHex hk hlib x
  refine ⟨?_, hhex, ?_, ?_⟩
  · rcases exists_textRestores hk lib x with ⟨t, y, h⟩
    exact ⟨t, y, h, h.serialize.1, h.deserialize.1, h.serialize.2⟩
  · change (parseFloatStringOrHex contract lib (x.asHex lib)).mapError SerdeError.custom = _
    rw [hhex]
    rfl
  · cases o with
    | none => exact ⟨.null, none, rfl, rfl, trivial, rfl, by simp⟩
    | some z =>
        rcases exists_textRestores hk lib z with ⟨t, y, h⟩
        exact ⟨.string t, some y, h.serialize.1, h.deserialize.2, h.2.2.2.1, h.serialize.2, by simp⟩

/-- Three at the least exponent, which has no plain text. -/
theorem text_round_trip_three :
    (∃ json o', serializeOptionFloat referenceContract (some (layout ⟨3, i32Min⟩)) = .ok json ∧
      deserializeOptionFloatFromNumberOrString referenceContract hexLibrary json = .ok o' ∧
      SameValue (some (layout ⟨3, i32Min⟩)) o' ∧
      serializeOptionFloat referenceContract o' = .ok json ∧
      (json = .null ↔ (some (layout ⟨3, i32Min⟩) : Option Float) = none)) :=
  (text_round_trip referenceContract_followsReference hexLibrary_documented (layout ⟨3, i32Min⟩)
    (some (layout ⟨3, i32Min⟩))).2.2.2

end Binding
end RainFloat
