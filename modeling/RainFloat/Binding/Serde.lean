import RainFloat.Binding.Float

/-!
# Serde — Floats in JSON

A Float is serialized as decimal text and read back from a JSON string or number.  A string that is
no decimal is tried as hex.
-/

namespace RainFloat
namespace Binding

open Reference

/-- `format_float`: plain text, or scientific text where that fails. -/
def formatFloat (contract : Contract) (value : Float) : Except FloatError Text :=
  match Float.formatWithScientific contract value false with
  | .ok text => .ok text
  | .error _ => Float.formatWithScientific contract value true

/-- `parse_float_string_or_hex` -/
def parseFloatStringOrHex (contract : Contract) (lib : HexLibrary) (value : Text) :
    Except FloatError Float :=
  match Float.parse contract value with
  | .ok float => .ok float
  | .error _ => Float.fromHex lib value

/-! ## JSON -/

/-- JSON as `serde_json` passes it: strings, and numbers as their text. -/
inductive Json
  | null
  | string (value : Text)
  | number (text : Text)
  | other
  deriving DecidableEq, Repr

/-- An error of a serializer or deserializer: a `FloatError` it wraps, or input of the wrong
kind. -/
inductive SerdeError
  | custom (error : FloatError)
  | noVariant

/-- `FloatSerdeInput` -/
inductive FloatSerdeInput
  | string (value : Text)
  | number (value : Text)

/-- The derived `Deserialize` of the untagged enum. -/
def FloatSerdeInput.deserialize : Json → Except SerdeError FloatSerdeInput
  | .string value => .ok (.string value)
  | .number value => .ok (.number value)
  | _ => .error .noVariant

/-- The Float of an input, as both deserializers compute it. -/
def FloatSerdeInput.read (contract : Contract) (lib : HexLibrary) :
    FloatSerdeInput → Except SerdeError Float
  | .string value => (parseFloatStringOrHex contract lib value).mapError .custom
  | .number value => (Float.parse contract value).mapError .custom

def serializeFloatAsString (contract : Contract) (value : Float) : Except SerdeError Json := do
  let formatted ← (formatFloat contract value).mapError .custom
  pure (.string formatted)

def deserializeFloatFromNumberOrString (contract : Contract) (lib : HexLibrary) (json : Json) :
    Except SerdeError Float := do
  let input ← FloatSerdeInput.deserialize json
  input.read contract lib

/-- `option_float_string_serde::serialize` -/
def serializeOptionFloat (contract : Contract) : Option Float → Except SerdeError Json
  | some float => serializeFloatAsString contract float
  | none => .ok .null

/-- `Option::deserialize`, where `null` is the absent value. -/
def deserializeOptionInput : Json → Except SerdeError (Option FloatSerdeInput)
  | .null => .ok none
  | json => (FloatSerdeInput.deserialize json).map some

def deserializeOptionFloatFromNumberOrString (contract : Contract) (lib : HexLibrary)
    (json : Json) : Except SerdeError (Option Float) := do
  let input ← deserializeOptionInput json
  match input with
  | some value => (value.read contract lib).map some
  | none => pure none

end Binding
end RainFloat
