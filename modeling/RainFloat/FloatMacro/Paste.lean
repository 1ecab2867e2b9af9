import RainFloat.Binding.RoundTrip
import RainFloat.FloatMacro.Meaning

/-!
# Paste — texts of Floats as arguments of the macros

A text that is written for a Float can be copied into a program.  It is spelled by one literal
token, behind a minus sign if there is one, and from any tokens that spell it both macros expand to
the constant.

* `joined_literalTokens`: one literal token spells a literal;
* `renderings_paste`: the constant has the value of the Float that was written.
-/

namespace RainFloat
namespace FloatMacro

open Foundation Reference Binding

/-! ## The tokens of a literal -/

def decLiteral (d : DigitText) : DecLiteral where
  start := d.chars.head d.nonempty
  tail := d.chars.tail
  isDigit_start := d.isDigit _ (List.head_mem d.nonempty)
  isDigit_or_underscore c hc := Or.inl (d.isDigit c (List.mem_of_mem_tail hc))

@[simp] theorem decLiteral_text (d : DigitText) : (decLiteral d).text = d.chars :=
  List.cons_head_tail d.nonempty

theorem no_marker_of_none (n : Name) (h : none = some n) : isMarker n.start = false := by
  cases h

def noSuffix : SuffixNoE where
  suffix := none
  noE := no_marker_of_none

def exponentToken (x : Exponent) : ExponentPart where
  upper := x.upper
  sign := x.sign
  underscores := 0
  digits := decLiteral x.digits

@[simp] theorem exponentToken_text (x : Exponent) : (exponentToken x).text = x.text := by
  have hmarker : (exponentToken x).marker = x.marker := rfl
  rw [ExponentPart.text, Exponent.text, hmarker]
  simp [exponentToken]

/-- The literal token of the digits, without the sign. -/
def literalToken (l : Literal) : LiteralToken :=
  match l.frac, l.exponent with
  | none, none => .integer (decLiteral l.int) noSuffix
  | some d, none => .decimal (decLiteral l.int) (decLiteral d) noSuffix
  | frac, some x => .scientific (decLiteral l.int) (frac.map decLiteral) (exponentToken x) none

theorem literalToken_text (l : Literal) :
    l.signText ++ (literalToken l).text = l.text := by
  rw [Literal.text_eq]
  congr 1
  unfold literalToken
  cases l.frac with
  | none =>
      cases l.exponent with
      | none => simp [LiteralToken.text, noSuffix, suffixText]
      | some x => simp [LiteralToken.text, suffixText]
  | some d =>
      cases l.exponent with
      | none => simp [LiteralToken.text, noSuffix, suffixText]
      | some x => simp [LiteralToken.text, suffixText]

theorem minus_mem_punctChars : '-' ∈ punctChars := by
  decide

def minusSign : Punct where
  char := '-'
  mem_punctChars := minus_mem_punctChars

/-- One literal token that spells a literal, and the sign in front of it. -/
def literalTokens (l : Literal) : List TokenTree :=
  if l.negative then [.punct minusSign, .literal (literalToken l)] else [.literal (literalToken l)]

theorem joined_literalTokens (l : Literal) : joined (literalTokens l) = l.text := by
  rw [← literalToken_text, Literal.signText, literalTokens]
  -- The sign is a token of its own.
  cases l.negative with
  | true => simp [joined, TokenTree.text, minusSign]
  | false => simp [joined, TokenTree.text]

theorem isOneLiteral_literalTokens (l : Literal) : IsOneLiteral (literalTokens l) := by
  refine ⟨literalToken l, ?_⟩
  unfold literalTokens
  split
  · exact Or.inr ⟨minusSign, rfl, rfl⟩
  · exact Or.inl rfl

/-! ## Pasting -/

/-- The text written for a Float is spelled by one literal token, behind a sign or not.  What both
macros write for it, or for any other tokens that spell it, is read as the constant of one Float,
and in no other way.  That Float has the same value and is written the same. -/
theorem renderings_paste (contract : Contract) (compiler : Compiler)
    (hk : contract.FollowsReference) (hc : compiler.Documented) (x : Binding.Float) :
    ∃ (l : Literal) (f : Binding.Float) (t t' : Text), formatFloat contract x = .ok l.text ∧
      IsOneLiteral (literalTokens l) ∧ joined (literalTokens l) = l.text ∧
      (∀ tokens, joined tokens = l.text →
        float contract compiler tokens = .ok t ∧ floatResult contract compiler tokens = .ok t') ∧
      (∀ n, ReadsAs compiler t n ↔ n = .expr (.constant f)) ∧
      (∀ n, ReadsAs compiler t' n ↔ n = .expr (.ok (.constant f))) ∧
      (fromBytes f).val = (fromBytes x).val ∧ formatFloat contract f = .ok l.text := by
  rcases exists_formatFloat hk x with ⟨l, hl, hrender⟩
  rcases exists_parse hk hrender with ⟨f, hf, hval⟩
  have hnumeric := isNumericLiteralStr_of_isLiteral l.isLiteral_text
  refine ⟨l, f, _, _, hl, isOneLiteral_literalTokens l, joined_literalTokens l, ?_,
    (ReadsAs.expr (reads_constantSource f)).iff_eq hc, (ReadsAs.expr (reads_okSource f)).iff_eq hc,
    hval, ?_⟩
  · -- The macros look at the spelling only.
    intro tokens htokens
    have hjoined : isNumericLiteralStr (joined tokens) = .ok true := by rw [htokens, hnumeric]
    have hparse : Binding.Float.parse contract (joined tokens) = .ok f := by rw [htokens, hf]
    exact ⟨expand_of_parse_ok hjoined hparse, expand_of_parse_ok hjoined hparse⟩
  · exact (formatFloat_congr hk hval).trans hl

/-- Minus three at the least exponent, which is written in the scientific form. -/
theorem renderings_paste_three :
    ∃ (l : Literal) (f : Binding.Float) (t t' : Text),
      formatFloat referenceContract (layout ⟨-3, i32Min⟩) = .ok l.text ∧
      IsOneLiteral (literalTokens l) ∧ joined (literalTokens l) = l.text ∧
      (∀ tokens, joined tokens = l.text →
        float referenceContract escapingCompiler tokens = .ok t ∧
        floatResult referenceContract escapingCompiler tokens = .ok t') ∧
      (∀ n, ReadsAs escapingCompiler t n ↔ n = .expr (.constant f)) ∧
      (∀ n, ReadsAs escapingCompiler t' n ↔ n = .expr (.ok (.constant f))) ∧
      (fromBytes f).val = (fromBytes (layout ⟨-3, i32Min⟩)).val ∧
      formatFloat referenceContract f = .ok l.text :=
  renderings_paste referenceContract escapingCompiler referenceContract_followsReference
    escapingCompiler_documented (layout ⟨-3, i32Min⟩)

end FloatMacro
end RainFloat
