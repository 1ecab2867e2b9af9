import RainFloat.Foundation.DecimalText
import RainFloat.FloatMacro.NumericStr

/-!
# Tokens — what the source between the parentheses is cut into

The tokens that `float!` is given, each with the text `to_string` has for it.  Numbers follow the
lexical grammar of the language.  Identifiers are those of the language and more: any character
outside ASCII that is no whitespace may occur in them.
-/

namespace RainFloat
namespace FloatMacro

open Foundation Reference

/-! ## Identifiers -/

def isIdentStart (c : Char) : Bool :=
  c = '_' || c.isAlpha || (128 ≤ c.toNat && !isWhitespace c)

def isIdentContinue (c : Char) : Bool :=
  isIdentStart c || c.isDigit

structure Name where
  start : Char
  tail : Text
  isIdentStart_start : isIdentStart start = true
  isIdentContinue_tail : ∀ c ∈ tail, isIdentContinue c = true

def Name.text (n : Name) : Text :=
  n.start :: n.tail

/-- What stands in front of the name: `r#` or the `$` of `$crate`. -/
inductive IdentMark
  | none
  | raw
  | dollar
  deriving DecidableEq, Repr

def IdentMark.text : IdentMark → Text
  | .none => []
  | .raw => ['r', '#']
  | .dollar => ['$']

structure Ident where
  mark : IdentMark
  name : Name

def Ident.text (i : Ident) : Text :=
  i.mark.text ++ i.name.text

/-! ## Literals -/

/-- `DEC_LITERAL`: a digit, then digits and underscores. -/
structure DecLiteral where
  start : Char
  tail : Text
  isDigit_start : start.isDigit = true
  isDigit_or_underscore : ∀ c ∈ tail, c.isDigit = true ∨ c = '_'

def DecLiteral.text (d : DecLiteral) : Text :=
  d.start :: d.tail

/-- No underscores among the digits. -/
def DecLiteral.plain (d : DecLiteral) : Bool :=
  d.tail.all Char.isDigit

/-- `SUFFIX` -/
def suffixText (suffix : Option Name) : Text :=
  suffix.elim [] Name.text

/-- `SUFFIX_NO_E` -/
structure SuffixNoE where
  suffix : Option Name
  noE : ∀ n, suffix = some n → isMarker n.start = false

/-- `EXPONENT`: the digits may have underscores in front of them as well. -/
structure ExponentPart where
  upper : Bool
  sign : ExponentSign
  underscores : Nat
  digits : DecLiteral

def ExponentPart.marker (x : ExponentPart) : Char :=
  if x.upper then 'E' else 'e'

def ExponentPart.text (x : ExponentPart) : Text :=
  x.marker :: (x.sign.text ++ (List.replicate x.underscores '_' ++ x.digits.text))

inductive Base
  | binary
  | octal
  | hex
  deriving DecidableEq, Repr

def Base.letter : Base → Char
  | .binary => 'b'
  | .octal => 'o'
  | .hex => 'x'

/-- The characters that open and close the text of a character or a string. -/
def quotes : Text :=
  "\"'".toList

/-- A literal token.  Characters and strings of any kind, raw ones and byte strings too, are
`quoted`. -/
inductive LiteralToken
  | integer (digits : DecLiteral) (suffix : SuffixNoE)
  | based (base : Base) (digits : Text)
  | point (int : DecLiteral)
  | decimal (int frac : DecLiteral) (suffix : SuffixNoE)
  | scientific (int : DecLiteral) (frac : Option DecLiteral) (exponent : ExponentPart)
      (suffix : Option Name)
  | quoted (text : Text) (hasQuote : ∃ c ∈ quotes, c ∈ text)

def LiteralToken.text : LiteralToken → Text
  | .integer digits suffix => digits.text ++ suffixText suffix.suffix
  | .based base digits => '0' :: base.letter :: digits
  | .point int => int.text ++ ['.']
  | .decimal int frac suffix => int.text ++ '.' :: (frac.text ++ suffixText suffix.suffix)
  | .scientific int frac exponent suffix =>
      int.text ++ (frac.elim [] (fun d => '.' :: d.text) ++ (exponent.text ++ suffixText suffix))
  | .quoted text _ => text

/-! ## Tokens -/

/-- The characters of `Punct` -/
def punctChars : Text :=
  "=<>!~+-*/%^&|@.,;:#$?'".toList

structure Punct where
  char : Char
  mem_punctChars : char ∈ punctChars

inductive Delimiter
  | parenthesis
  | brace
  | bracket
  | none
  deriving DecidableEq, Repr

def Delimiter.opening : Delimiter → Text
  | .parenthesis => "(".toList
  | .brace => "\x7b".toList
  | .bracket => "[".toList
  | .none => []

/-- A group of tokens.  Only its text is of interest, which shows the delimiters unless they are
invisible, as those around the argument of another expansion. -/
structure Group where
  delimiter : Delimiter
  text : Text
  opens : delimiter.opening <+: text

/-- `proc_macro::TokenTree` -/
inductive TokenTree
  | group (g : Group)
  | ident (i : Ident)
  | punct (p : Punct)
  | literal (l : LiteralToken)

/-- `TokenTree::to_string` -/
def TokenTree.text : TokenTree → Text
  | .group g => g.text
  | .ident i => i.text
  | .punct p => [p.char]
  | .literal l => l.text

/-- The texts of the tokens with nothing between them. -/
def joined (tokens : List TokenTree) : Text :=
  tokens.flatMap TokenTree.text

/-- One literal, with one minus sign in front of it or none. -/
def IsOneLiteral (tokens : List TokenTree) : Prop :=
  ∃ l, tokens = [.literal l] ∨ ∃ p : Punct, p.char = '-' ∧ tokens = [.punct p, .literal l]

end FloatMacro
end RainFloat
