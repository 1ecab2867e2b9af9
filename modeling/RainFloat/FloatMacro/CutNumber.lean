import RainFloat.Binding.Disambiguation
import RainFloat.FloatMacro.Expand
import RainFloat.FloatMacro.SpellsNumber

/-!
# CutNumber — constants that are no single literal

Joining the tokens is meant to recover a literal the compiler has split from its sign.  It also
makes numbers of tokens that were apart in the source.

* `isOneLiteral_or_cut`: a number is one literal, or it is cut into several tokens, or a lone point;
* `one_literal_iff`: when the compile-time path is taken for a literal alone.
-/

namespace RainFloat
namespace FloatMacro

open Foundation Reference Binding

/-! ## Pieces of a number -/

/-- The tokens behind a minus sign. -/
def unsigned : List TokenTree → List TokenTree
  | .punct p :: ts => if p.char = '-' then ts else .punct p :: ts
  | ts => ts

/-- Two tokens or more, or a lone point, that spell a number. -/
structure CutNumber (tokens : List TokenTree) : Prop where
  spells : SpellsNumber tokens
  cut : 2 ≤ (unsigned tokens).length ∨ ∃ p : Punct, p.char = '.' ∧ unsigned tokens = [.punct p]

/-- A number that is in part the text of an invisible group. -/
structure HidesNumber (tokens : List TokenTree) : Prop where
  invisible : ∃ t ∈ tokens, t.invisible = true
  spells : SpellsPadded tokens

theorem unsigned_cases (tokens : List TokenTree) :
    unsigned tokens = tokens ∨
      ∃ p : Punct, p.char = '-' ∧ tokens = .punct p :: unsigned tokens := by
  cases tokens with
  | nil => exact Or.inl rfl
  | cons t ts =>
      cases t with
      | punct p =>
          rw [unsigned]
          split
          · rename_i hp
            exact Or.inr ⟨p, hp, rfl⟩
          · exact Or.inl rfl
      | group g | ident i | literal l => exact Or.inl rfl

theorem isOneLiteral_iff {tokens : List TokenTree} :
    IsOneLiteral tokens ↔ ∃ l, unsigned tokens = [.literal l] := by
  constructor
  · rintro ⟨l, rfl | ⟨p, hp, rfl⟩⟩
    · exact ⟨l, rfl⟩
    · exact ⟨l, if_pos hp⟩
  · rintro ⟨l, hl⟩
    rcases unsigned_cases tokens with h | ⟨p, hp, h⟩
    · exact ⟨l, Or.inl (h.symm.trans hl)⟩
    · exact ⟨l, Or.inr ⟨p, hp, by rw [h, hl]⟩⟩

theorem IsOneLiteral.visible {tokens : List TokenTree} (h : IsOneLiteral tokens) :
    ∀ t ∈ tokens, t.invisible = false := by
  rcases h with ⟨l, rfl | ⟨p, -, rfl⟩⟩ <;> simp [TokenTree.invisible]

/-- A number that is a single token is a literal or a point. -/
theorem literal_or_point {p q : Phase} {t : TokenTree} (hp : p = .start ∨ p = .minus)
    (h : t.advance p = some q) (hq : q.complete = true) :
    (∃ l, t = .literal l) ∨ ∃ c : Punct, c.char = '.' ∧ t = .punct c := by
  have hmark : p.mark = none := by
    rcases hp with rfl | rfl <;> rfl
  cases t with
  | group g => cases h
  | ident i => simp [TokenTree.advance, Ident.advance, hmark] at h
  | literal l => exact Or.inl ⟨l, rfl⟩
  | punct c =>
      have hdigit : punctChars.any Char.isDigit = false := by decide
      rcases Phase.step_cases h with ⟨hc, -⟩ | ⟨hc, -⟩ | ⟨-, hc⟩ | ⟨-, hc⟩ | ⟨-, hc⟩
      · exact absurd hc (List.any_eq_false.1 hdigit c.char c.mem_punctChars)
      · exact Or.inr ⟨c, hc, rfl⟩
      · rw [hmark] at hc
        cases hc
      · rcases hp with rfl | rfl <;> cases hc
      · rcases hp with rfl | rfl <;> cases hc
        cases hq

/-- A number has pieces behind its minus sign, and these read on from there. -/
theorem SpellsNumber.unsigned {tokens : List TokenTree} (h : SpellsNumber tokens) :
    ∃ p q : Phase, (p = .start ∨ p = .minus) ∧
      follow TokenTree.advance p (unsigned tokens) = some q ∧ q.complete = true := by
  rcases h with ⟨q, hq, hcomplete⟩
  rcases unsigned_cases tokens with h | ⟨c, hc, h⟩
  · exact ⟨.start, q, Or.inl rfl, by rw [h, hq], hcomplete⟩
  · refine ⟨.minus, q, Or.inr rfl, ?_, hcomplete⟩
    rw [h, follow_cons] at hq
    have hstep : TokenTree.advance Phase.start (.punct c) = some .minus := by
      rw [TokenTree.advance, hc]
      rfl
    rwa [hstep] at hq

theorem isOneLiteral_or_cut {tokens : List TokenTree} (h : SpellsNumber tokens) :
    IsOneLiteral tokens ∨ CutNumber tokens := by
  rcases h.unsigned with ⟨p, q, hp, hq, hcomplete⟩
  match hu : FloatMacro.unsigned tokens with
  | [] =>
      -- Nothing is no number, with or without a sign.
      rw [hu] at hq
      cases hq
      rcases hp with rfl | rfl <;> cases hcomplete
  | [t] =>
      rw [hu, follow_cons] at hq
      have ht : t.advance p = some q := by
        simpa using hq
      rcases literal_or_point hp ht hcomplete with ⟨l, rfl⟩ | ⟨c, hc, rfl⟩
      · exact Or.inl (isOneLiteral_iff.2 ⟨l, hu⟩)
      · exact Or.inr ⟨h, Or.inr ⟨c, hc, hu⟩⟩
  | t :: u :: ts =>
      exact Or.inr ⟨h, Or.inl (by simp [hu])⟩

theorem CutNumber.not_isOneLiteral {tokens : List TokenTree} (h : CutNumber tokens) :
    ¬ IsOneLiteral tokens := by
  rw [isOneLiteral_iff]
  rintro ⟨l, hl⟩
  rcases h.cut with hlen | ⟨p, -, hp⟩
  · rw [hl] at hlen
    cases hlen
    contradiction
  · rw [hl] at hp
    cases hp

theorem HidesNumber.not_isOneLiteral {tokens : List TokenTree} (h : HidesNumber tokens) :
    ¬ IsOneLiteral tokens := by
  intro hone
  rcases h.invisible with ⟨t, ht, hinv⟩
  rw [hone.visible t ht] at hinv
  cases hinv

/-- No group takes a number any further. -/
theorem SpellsNumber.visible {tokens : List TokenTree} (h : SpellsNumber tokens) :
    ∀ t ∈ tokens, t.invisible = false := by
  have hstep : ∀ {p q : Phase} {t : TokenTree}, t.advance p = some q → t.invisible = false := by
    intro p q t ht
    cases t with
    | group g => cases ht
    | ident i | punct c | literal l => rfl
  rcases h with ⟨q, hq, -⟩
  exact forall_mem_of_follow hstep hq

/-- What passes the test without being one literal. -/
theorem numeric_not_isOneLiteral_iff (tokens : List TokenTree) :
    isNumericLiteralStr (joined tokens) = .ok true ∧ ¬ IsOneLiteral tokens ↔
      CutNumber tokens ∨ HidesNumber tokens := by
  rw [isNumericLiteralStr_joined_iff]
  constructor
  · rintro ⟨hnumeric, hone⟩
    by_cases hvisible : ∀ t ∈ tokens, t.invisible = false
    · left
      have hspells := (spellsPadded_iff hvisible).1 hnumeric
      exact (isOneLiteral_or_cut hspells).resolve_left hone
    · right
      exact ⟨by simpa using hvisible, hnumeric⟩
  · rintro (h | h)
    · exact ⟨(spellsPadded_iff h.spells.visible).2 h.spells, h.not_isOneLiteral⟩
    · exact ⟨h.spells, h.not_isOneLiteral⟩

/-! ## Constants -/

/-- `s` is a decimal literal of the value of a Float. -/
def DenotesFloat (s : Text) : Prop :=
  ∃ l : Literal, l.text = s ∧ (literalDec l).val ∈ Representable

/-- One of the forms expands to the constant of a Float. -/
def EmitsConstant (contract : Contract) (compiler : Compiler) (tokens : List TokenTree) : Prop :=
  (∃ f, float contract compiler tokens = .ok (constantSource f)) ∨
    ∃ f, floatResult contract compiler tokens = .ok (okSource (constantSource f))

section Constants

variable {contract : Contract} (hk : contract.ParsesExactly)
include hk

theorem exists_parse_iff (s : Text) :
    (∃ f, Binding.Float.parse contract s = .ok f) ↔ DenotesFloat s := by
  constructor
  · rintro ⟨f, hf⟩
    rcases hk.isLiteral_of_parse hf with ⟨l, rfl⟩
    refine ⟨l, rfl, ?_⟩
    by_contra hval
    rcases (hk.parse_inexact l hval).parse_error with ⟨e, he⟩
    rw [he] at hf
    cases hf
  · rintro ⟨l, rfl, hval⟩
    rcases hk.parse_exact l hval with ⟨b, hb, -⟩
    exact ⟨b, hb.parse_eq⟩

theorem emitsConstant_iff (compiler : Compiler) (tokens : List TokenTree) :
    EmitsConstant contract compiler tokens ↔
      isNumericLiteralStr (joined tokens) = .ok true ∧ DenotesFloat (joined tokens) := by
  have hfloat : (∃ f, float contract compiler tokens = .ok (constantSource f)) ↔ _ :=
    expand_eq_constant_iff (floatForm_distinct compiler)
  have hresult :
      (∃ f, floatResult contract compiler tokens = .ok (okSource (constantSource f))) ↔ _ :=
    expand_eq_constant_iff (floatResultForm_distinct compiler)
  rw [EmitsConstant, hfloat, hresult, exists_parse_iff hk, or_self_iff]

/-- The compile-time path is taken for one literal alone, and so is a constant made of one literal
alone, exactly where no number is cut into tokens and none is hidden in a group.  Where one is,
there is a constant if and only if the joined text is a literal of a Float value. -/
theorem one_literal_iff (compiler : Compiler) (tokens : List TokenTree) :
    ((isNumericLiteralStr (joined tokens) = .ok true → IsOneLiteral tokens) ∧
        (EmitsConstant contract compiler tokens → IsOneLiteral tokens) ↔
      ¬ (CutNumber tokens ∨ HidesNumber tokens)) ∧
    ((EmitsConstant contract compiler tokens → IsOneLiteral tokens) ↔
      ¬ ((CutNumber tokens ∨ HidesNumber tokens) ∧ DenotesFloat (joined tokens))) := by
  rw [emitsConstant_iff hk, ← numeric_not_isOneLiteral_iff]
  constructor
  · constructor
    · rintro ⟨h, -⟩ ⟨hnumeric, hone⟩
      exact hone (h hnumeric)
    · intro h
      have hpath : isNumericLiteralStr (joined tokens) = .ok true → IsOneLiteral tokens :=
        fun hnumeric => not_not.1 fun hone => h ⟨hnumeric, hone⟩
      exact ⟨hpath, fun hconstant => hpath hconstant.1⟩
  · constructor
    · rintro h ⟨⟨hnumeric, hone⟩, hdenotes⟩
      exact hone (h ⟨hnumeric, hdenotes⟩)
    · rintro h ⟨hnumeric, hdenotes⟩
      exact not_not.1 fun hone => h ⟨⟨hnumeric, hone⟩, hdenotes⟩

end Constants

/-! ## Two digits side by side -/

def digitLiteral (c : Char) (h : c.isDigit = true) : DecLiteral :=
  ⟨c, [], h, by simp⟩

def integerToken (c : Char) (h : c.isDigit = true) : TokenTree :=
  .literal (.integer (digitLiteral c h) ⟨none, by simp⟩)

/-- `1 2` -/
def oneTwo : List TokenTree :=
  [integerToken '1' rfl, integerToken '2' rfl]

/-- A marker that is an identifier, and a point between two numbers. -/
example :
    CutNumber [integerToken '1' rfl,
      .ident ⟨.none, ⟨'e', ['5'], rfl, List.forall_mem_singleton.2 rfl⟩⟩] ∧
    CutNumber [integerToken '1' rfl, .punct ⟨'.', by decide⟩, integerToken '5' rfl] :=
  ⟨⟨⟨_, rfl, rfl⟩, Or.inl (by decide)⟩, ⟨_, rfl, rfl⟩, Or.inl (by decide)⟩

/-- `-1.5` -/
def minusOneAndHalf : List TokenTree :=
  [.punct ⟨'-', by decide⟩,
    .literal (.decimal (digitLiteral '1' rfl) (digitLiteral '5' rfl) ⟨none, by simp⟩)]

/-- Texts with a blank behind each token, and strings in quotes. -/
def plainCompiler : Compiler where
  streamText tokens := tokens.flatMap fun t => t.text ++ [' ']
  debugText s := "\"".toList ++ (s ++ "\"".toList)
  errorText _ := "error".toList

/-- A signed literal is not cut. -/
theorem one_literal_iff_minusOneAndHalf :
    ¬ (CutNumber minusOneAndHalf ∨ HidesNumber minusOneAndHalf) := by
  have hone : IsOneLiteral minusOneAndHalf := ⟨_, Or.inr ⟨_, rfl, rfl⟩⟩
  exact (one_literal_iff referenceContract_parsesExactly plainCompiler minusOneAndHalf).1.1
    ⟨fun _ => hone, fun _ => hone⟩

/-- `1 2` is no expression, and becomes the Float 12. -/
theorem one_two_is_twelve :
    ¬ (∀ tokens, isNumericLiteralStr (joined tokens) = .ok true → IsOneLiteral tokens) ∧
    ¬ IsOneLiteral oneTwo ∧
    ∃ f, float referenceContract plainCompiler oneTwo = .ok (constantSource f) ∧
      (fromBytes f).val = 12 := by
  have hcut : CutNumber oneTwo := ⟨⟨_, rfl, rfl⟩, Or.inl (by decide)⟩
  have hnumeric := (numeric_not_isOneLiteral_iff oneTwo).2 (Or.inl hcut)
  have htext : joined oneTwo = (⟨false, DigitText.ofNat 12, none, none⟩ : Literal).text := by
    decide +kernel
  have htwelve : literalDec ⟨false, DigitText.ofNat 12, none, none⟩ = ⟨12, 0⟩ := by decide +kernel
  have hval : (⟨12, 0⟩ : Dec).val = 12 := by norm_num [Dec.val]
  have hmem : (⟨12, 0⟩ : Dec).val ∈ Representable :=
    IsFloat.val_mem ⟨by decide, by decide, by decide⟩
  refine ⟨fun hclaim => hnumeric.2 (hclaim oneTwo hnumeric.1), hnumeric.2, ?_⟩
  rw [← htwelve] at hmem
  rcases referenceContract_parsesExactly.parse_exact _ hmem with ⟨f, hf, hfval⟩
  rw [← htext] at hf
  refine ⟨f, expand_of_parse_ok hnumeric.1 hf.parse_eq, ?_⟩
  rw [hfval, htwelve, hval]

end FloatMacro
end RainFloat
