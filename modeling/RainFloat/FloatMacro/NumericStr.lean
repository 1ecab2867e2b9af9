import RainFloat.Foundation.ByteText
import RainFloat.Reference.Parse

/-!
# NumericStr — the test for numeric literals

`isNumericLiteralStr` decides from the joined texts of its tokens whether `float!` parses at compile
time.  It cuts the text at byte offsets, so its result allows for a slice that splits a character.
-/

namespace RainFloat
namespace FloatMacro

open Foundation Reference

/-! ## Characters -/

/-- `char::is_whitespace`, the Unicode property `White_Space` -/
def isWhitespace (c : Char) : Bool :=
  let n := c.toNat
  (9 ≤ n && n ≤ 13) || n == 0x20 || n == 0x85 || n == 0xa0 || n == 0x1680 ||
    (0x2000 ≤ n && n ≤ 0x200a) || n == 0x2028 || n == 0x2029 || n == 0x202f || n == 0x205f ||
    n == 0x3000

/-- `str::trim` -/
def trim (s : Text) : Text :=
  trimMatches isWhitespace s

/-- The pattern `['e', 'E']` -/
def isMarker (c : Char) : Bool :=
  c = 'e' || c = 'E'

/-- The pattern `['+', '-']` -/
def isSign (c : Char) : Bool :=
  c = '+' || c = '-'

/-- `str::strip_prefix` of a character that satisfies a pattern -/
def stripPrefixMatching (p : Char → Bool) : Text → Option Text
  | [] => none
  | c :: t => if p c then some t else none

/-! ## The test -/

/-- The mantissa of `s`, and the text behind the marker of its exponent if it has one. -/
def splitMarker (s : Text) : Except SliceError (Text × Option Text) :=
  match find isMarker s with
  | some index => do
    let mantissa ← sliceTo s index
    let exponent ← sliceFrom s (index + 1)
    pure (mantissa, some exponent)
  | none => pure (s, none)

/-- The loop over the characters of the mantissa: digits and at most one point. -/
def scanMantissa : Bool → Text → Bool
  | _, [] => true
  | seenDot, ch :: t =>
    if ch = '.' then
      if seenDot then false else scanMantissa true t
    else if !ch.isDigit then
      false
    else
      scanMantissa seenDot t

/-- The exponent, if there is one: digits behind an optional sign. -/
def exponentDigits : Option Text → Bool
  | none => true
  | some exponent =>
    let digits := (stripPrefixMatching isSign exponent).getD exponent
    !digits.isEmpty && digits.all Char.isDigit

def isNumericLiteralStr (input : Text) : Except SliceError Bool := do
  let trimmed := trim input
  let s := (stripPrefix '-' trimmed).getD trimmed
  let (mantissa, exponent) ← splitMarker s
  if mantissa.isEmpty then
    pure false
  else if !scanMantissa false mantissa then
    pure false
  else
    pure (exponentDigits exponent)

end FloatMacro
end RainFloat
