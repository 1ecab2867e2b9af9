import RainFloat.FloatMacro.Phase
import RainFloat.FloatMacro.Tokens

/-!
# SpellsNumber — tokens that are the pieces of a number

The test sees the texts of the tokens with nothing between them, so it is passed by tokens that
spell a number together.  What a token adds to a number depends on its kind alone: digits, a point
and signs where these may follow, an identifier that is a marker with digits behind it or none, and
a literal with its parts.

* `TokenTree.follow_text`, `TokenTree.follow_padded_text`: a token takes a number as far as its text
  does;
* `isNumericLiteralStr_joined_iff`: the token sequences that pass the test;
* `spellsPadded_iff`: blanks make a difference in groups without delimiters only.
-/

namespace RainFloat
namespace FloatMacro

open Foundation Reference

/-! ## What a token adds to a number -/

/-- Only `e` and `E` with digits behind them or none: the start of an exponent. -/
def Ident.advance (p : Phase) (i : Ident) : Option Phase :=
  if i.mark = .none ∧ isMarker i.name.start = true ∧ i.name.tail.all Char.isDigit = true then
    if i.name.tail = [] then p.mark else p.mark.map Phase.digit
  else
    none

def ExponentPart.plain (x : ExponentPart) : Bool :=
  x.underscores == 0 && x.digits.plain

/-- Decimal numbers without underscores and suffixes. -/
def LiteralToken.advance (p : Phase) : LiteralToken → Option Phase
  | .integer digits suffix =>
    if digits.plain && suffix.suffix.isNone then some p.digit else none
  | .based _ _ => none
  | .point int => if int.plain then p.digit.point else none
  | .decimal int frac suffix =>
    if int.plain && (frac.plain && suffix.suffix.isNone) then p.digit.point else none
  | .scientific int frac exponent suffix =>
    if int.plain && (frac.elim true DecLiteral.plain && (exponent.plain && suffix.isNone)) then
      (frac.elim (some p.digit) fun _ => p.digit.point).bind fun q =>
        q.mark.map fun _ => .exponent
    else none
  | .quoted _ _ => none

/-- The phase of a number after one more token. -/
def TokenTree.advance (p : Phase) : TokenTree → Option Phase
  | .group _ => none
  | .ident i => i.advance p
  | .punct c => p.step c.char
  | .literal l => l.advance p

/-- The tokens, one after the other, are the pieces of a number. -/
def SpellsNumber (tokens : List TokenTree) : Prop :=
  ∃ p, follow TokenTree.advance .start tokens = some p ∧ p.complete = true

/-- A group without delimiters. -/
def TokenTree.invisible : TokenTree → Bool
  | .group g => g.delimiter = .none
  | .ident _ | .punct _ | .literal _ => false

/-- How far a number with blanks around it is read by one more token.  The text of a group without
delimiters is read on character by character. -/
def TokenTree.read (r : Padded) (t : TokenTree) : Option Padded :=
  if t.invisible then follow Padded.step r t.text else r.inside fun p => t.advance p

/-- The tokens are the pieces of a number, and so are the characters of the groups without
delimiters among them, but for blanks at both ends. -/
def SpellsPadded (tokens : List TokenTree) : Prop :=
  ∃ r, follow TokenTree.read (.within .start) tokens = some r ∧ r.complete = true

/-! ## Identifiers and digits -/

theorem toNat_of_isAlpha {c : Char} (h : c.isAlpha = true) :
    (65 ≤ c.toNat ∧ c.toNat ≤ 90) ∨ (97 ≤ c.toNat ∧ c.toNat ≤ 122) := by
  rcases Bool.or_eq_true_iff.1 h with h | h
  · have hupper : 'A'.val ≤ c.val ∧ c.val ≤ 'Z'.val := of_decide_eq_true h
    exact Or.inl ⟨UInt32.le_iff_toNat_le.1 hupper.1, UInt32.le_iff_toNat_le.1 hupper.2⟩
  · have hlower := Bool.and_eq_true_iff.1 h
    exact Or.inr ⟨UInt32.le_iff_toNat_le.1 (of_decide_eq_true hlower.1),
      UInt32.le_iff_toNat_le.1 (of_decide_eq_true hlower.2)⟩

theorem isWhitespace_of_isIdentStart {c : Char} (h : isIdentStart c = true) :
    isWhitespace c = false := by
  simp only [isIdentStart, Bool.or_eq_true, Bool.and_eq_true, decide_eq_true_eq,
    Bool.not_eq_true'] at h
  rcases h with (rfl | h) | ⟨-, h⟩
  · decide
  · have hval := toNat_of_isAlpha h
    simp [isWhitespace]
    omega
  · exact h

theorem isWhitespace_of_isIdentContinue {c : Char} (h : isIdentContinue c = true) :
    isWhitespace c = false := by
  rcases Bool.or_eq_true_iff.1 h with h | h
  · exact isWhitespace_of_isIdentStart h
  · exact isWhitespace_of_isDigit h

/-- Of the characters identifiers start with, only the markers occur in numbers. -/
theorem isNumberChar_of_isIdentStart {c : Char} (h : isIdentStart c = true)
    (hc : isMarker c = false) : isNumberChar c = false := by
  have hdigit : c.isDigit = false := by
    by_contra hd
    have hval : 48 ≤ c.toNat ∧ c.toNat ≤ 57 := toNat_of_isDigit (by simpa using hd)
    simp only [isIdentStart, Bool.or_eq_true, Bool.and_eq_true, decide_eq_true_eq] at h
    rcases h with (rfl | h) | ⟨h, -⟩
    · cases hd rfl
    · have hletter := toNat_of_isAlpha h
      omega
    · omega
  have hne : ∀ a : Char, isIdentStart a = false → c ≠ a := by
    rintro a ha rfl
    rw [h] at ha
    cases ha
  simp [isNumberChar, isSign, hdigit, hc, hne '.' rfl, hne '+' rfl, hne '-' rfl]

/-- A character that is neither part of a number nor blank. -/
def isAlien (c : Char) : Bool :=
  !isNumberChar c && !isWhitespace c

theorem isAlien_iff {c : Char} :
    isAlien c = true ↔ isNumberChar c = false ∧ isWhitespace c = false := by
  simp [isAlien]

theorem isAlien_of_mem_quotes {c : Char} (hc : c ∈ quotes) : isAlien c = true :=
  List.all_eq_true.1 (by decide) c hc

theorem Delimiter.isAlien_of_mem_opening (d : Delimiter) {c : Char} (hc : c ∈ d.opening) :
    isAlien c = true := by
  have hall : d.opening.all isAlien = true := by
    cases d <;> decide
  exact List.all_eq_true.1 hall c hc

namespace Phase

variable {p : Phase}

theorem follow_eq_none_of_isAlien {s : Text} {c : Char} (hc : c ∈ s) (h : isAlien c = true) :
    follow step p s = none :=
  follow_eq_none hc (isAlien_iff.1 h).1

theorem step_of_isIdentStart {c : Char} (h : isIdentStart c = true) :
    p.step c = if isMarker c then p.mark else none := by
  cases hc : isMarker c with
  | true => exact step_of_isMarker hc
  | false => exact step_eq_none (isNumberChar_of_isIdentStart h hc)

/-- Behind the marker an identifier goes on with digits or not at all. -/
theorem follow_eq_none_of_isIdentContinue {s : Text} (hp : p = .marker ∨ p = .exponent)
    (hs : ∀ c ∈ s, isIdentContinue c = true) (h : s.all Char.isDigit = false) :
    follow step p s = none := by
  induction s generalizing p with
  | nil => cases h
  | cons c t ih =>
      rw [follow_cons]
      by_cases hc : c.isDigit = true
      · have hdigit : p.digit = .exponent := by
          rcases hp with rfl | rfl <;> rfl
        rw [step_of_isDigit hc, Option.bind_some, hdigit]
        exact ih (Or.inr rfl) (fun a ha => hs a (by simp [ha])) (by simpa [hc] using h)
      · have hstart : isIdentStart c = true :=
          (Bool.or_eq_true_iff.1 (hs c (by simp))).resolve_right hc
        have hmark : p.mark = none := by
          rcases hp with rfl | rfl <;> rfl
        rw [step_of_isIdentStart hstart, hmark, ite_self]
        rfl

theorem follow_name (n : Name) :
    follow step p n.text =
      if isMarker n.start = true ∧ n.tail.all Char.isDigit = true then
        if n.tail = [] then p.mark else p.mark.map Phase.digit
      else none := by
  rw [Name.text, follow_cons, step_of_isIdentStart n.isIdentStart_start]
  cases hmarker : isMarker n.start with
  | false => simp
  | true =>
      cases hmark : p.mark with
      | none => simp
      | some q =>
          rcases mark_eq_some hmark with ⟨rfl, -⟩
          cases hall : n.tail.all Char.isDigit with
          | false =>
              have hnone : follow step .marker n.tail = none :=
                follow_eq_none_of_isIdentContinue (Or.inl rfl) n.isIdentContinue_tail hall
              simp [hnone]
          | true =>
              by_cases htail : n.tail = []
              · simp [htail]
              · have hfollow := follow_of_isDigit (p := .marker) (List.all_eq_true.1 hall) htail
                simp [htail, hfollow]

/-- Without a marker a name is no part of a number. -/
theorem follow_suffixNoE (s : SuffixNoE) :
    follow step p (suffixText s.suffix) = if s.suffix.isNone then some p else none := by
  rcases s with ⟨suffix, hnoE⟩
  cases suffix with
  | none => rfl
  | some n => simp [suffixText, follow_name, hnoE n rfl]

/-- Behind an exponent no marker is read. -/
theorem follow_suffix (suffix : Option Name) :
    follow step exponent (suffixText suffix) = if suffix.isNone then some exponent else none := by
  cases suffix with
  | none => rfl
  | some n => simp [suffixText, follow_name, mark]

theorem follow_decLiteral (d : DecLiteral) :
    follow step p d.text = if d.plain then some p.digit else none := by
  cases hplain : d.plain with
  | true =>
      refine follow_of_isDigit ?_ (List.cons_ne_nil _ _)
      intro c hc
      rcases List.mem_cons.1 hc with rfl | hc
      · exact d.isDigit_start
      · exact List.all_eq_true.1 hplain c hc
  | false =>
      -- What is no digit is an underscore.
      have hmem : '_' ∈ d.text := by
        simp only [DecLiteral.plain, List.all_eq_false] at hplain
        rcases hplain with ⟨c, hc, hdigit⟩
        rcases d.isDigit_or_underscore c hc with h | rfl
        · exact absurd h hdigit
        · exact List.mem_cons_of_mem _ hc
      exact follow_eq_none hmem rfl

/-- Digits behind the point leave the phase as it is. -/
theorem follow_point_decLiteral (d : DecLiteral) :
    follow step p ('.' :: d.text) = if d.plain then p.point else none := by
  rw [follow_cons, step_point]
  cases hpoint : p.point with
  | none => simp
  | some q =>
      rw [point_eq_some hpoint, Option.bind_some, follow_decLiteral]
      rfl

theorem follow_frac (frac : Option DecLiteral) :
    follow step p (frac.elim [] fun d => '.' :: d.text) =
      if frac.elim true DecLiteral.plain then frac.elim (some p) fun _ => p.point else none := by
  cases frac with
  | none => rfl
  | some d => exact follow_point_decLiteral d

theorem follow_exponentPart (x : ExponentPart) :
    follow step p x.text = if x.plain then p.mark.map fun _ => .exponent else none := by
  have hmarker : isMarker x.marker = true := by
    unfold ExponentPart.marker
    split <;> rfl
  rw [ExponentPart.text, follow_cons, step_of_isMarker hmarker]
  cases hmark : p.mark with
  | none => simp
  | some q =>
      rcases mark_eq_some hmark with ⟨rfl, -⟩
      rw [Option.bind_some]
      by_cases hunder : x.underscores = 0
      · cases hsign : x.sign <;>
          simp [ExponentPart.plain, hunder, ExponentSign.text, follow_decLiteral, plus, dash, digit]
      · have hmem : '_' ∈ x.sign.text ++ (List.replicate x.underscores '_' ++ x.digits.text) := by
          simp [hunder]
        rw [follow_eq_none hmem rfl]
        simp [ExponentPart.plain, hunder]

end Phase

/-! ## The phases a token leads to are those of its text -/

theorem LiteralToken.follow_text (p : Phase) (l : LiteralToken) :
    follow Phase.step p l.text = l.advance p := by
  cases l with
  | integer digits suffix =>
      rw [text, follow_append, Phase.follow_decLiteral, advance]
      cases digits.plain <;> simp [Phase.follow_suffixNoE]
  | based base digits =>
      have hmem : base.letter ∈ text (.based base digits) := by simp [text]
      exact Phase.follow_eq_none hmem (by cases base <;> rfl)
  | point int =>
      rw [text, follow_append, Phase.follow_decLiteral, advance]
      cases int.plain <;> simp
  | decimal int frac suffix =>
      have htext : text (.decimal int frac suffix) =
          int.text ++ (('.' :: frac.text) ++ suffixText suffix.suffix) := rfl
      rw [htext, follow_append, Phase.follow_decLiteral, advance]
      cases int.plain with
      | false => simp
      | true =>
          simp only [if_true, Option.bind_some, follow_append, Phase.follow_point_decLiteral]
          cases frac.plain with
          | false => simp
          | true => cases hsuffix : suffix.suffix.isNone <;> simp [Phase.follow_suffixNoE, hsuffix]
  | scientific int frac exponent suffix =>
      rw [text, follow_append, Phase.follow_decLiteral, advance]
      cases int.plain with
      | false => simp
      | true =>
          simp only [if_true, Option.bind_some, follow_append, Phase.follow_frac]
          cases frac.elim true DecLiteral.plain with
          | false => simp
          | true =>
              simp only [if_true, Phase.follow_exponentPart]
              cases exponent.plain with
              | false => simp
              | true =>
                  cases frac.elim (some p.digit) fun _ => p.digit.point with
                  | none => simp
                  | some q => cases hmark : q.mark <;> simp [hmark, Phase.follow_suffix]
  | quoted text hasQuote =>
      rcases hasQuote with ⟨c, hc, hmem⟩
      exact Phase.follow_eq_none_of_isAlien hmem (isAlien_of_mem_quotes hc)

theorem Ident.follow_text (p : Phase) (i : Ident) : follow Phase.step p i.text = i.advance p := by
  rcases i with ⟨mark, name⟩
  cases mark with
  | none =>
      change follow Phase.step p name.text = _
      rw [Phase.follow_name]
      simp [advance]
  | raw =>
      have hmem : '#' ∈ text ⟨.raw, name⟩ := by simp [text, IdentMark.text]
      rw [Phase.follow_eq_none hmem rfl]
      simp [advance]
  | dollar =>
      have hmem : '$' ∈ text ⟨.dollar, name⟩ := by simp [text, IdentMark.text]
      rw [Phase.follow_eq_none hmem rfl]
      simp [advance]

/-- A group that is seen shows a character no number has. -/
theorem Group.exists_isAlien (g : Group) (h : g.delimiter ≠ .none) :
    ∃ c ∈ g.text, isAlien c = true := by
  obtain ⟨c, hc⟩ : ∃ c, c ∈ g.delimiter.opening := by
    cases hd : g.delimiter with
    | none => exact absurd hd h
    | parenthesis => exact ⟨'(', by decide⟩
    | brace => exact ⟨_, List.mem_cons_self⟩
    | bracket => exact ⟨'[', by decide⟩
  exact ⟨c, g.opens.subset hc, g.delimiter.isAlien_of_mem_opening hc⟩

/-- Except for invisible groups a token takes a number as far as its text does. -/
theorem TokenTree.follow_text (p : Phase) (t : TokenTree) (h : t.invisible = false) :
    follow Phase.step p t.text = t.advance p := by
  cases t with
  | group g =>
      have hd : g.delimiter ≠ .none := by simpa [invisible] using h
      rcases g.exists_isAlien hd with ⟨c, hc, halien⟩
      exact Phase.follow_eq_none_of_isAlien hc halien
  | ident i => exact i.follow_text p
  | punct c =>
      rw [text, follow_cons]
      exact Option.bind_fun_some _
  | literal l => exact l.follow_text p

/-! ## Blanks -/

theorem Name.isWhitespace_of_mem {n : Name} {c : Char} (hc : c ∈ n.text) :
    isWhitespace c = false := by
  rcases List.mem_cons.1 hc with rfl | hc
  · exact isWhitespace_of_isIdentStart n.isIdentStart_start
  · exact isWhitespace_of_isIdentContinue (n.isIdentContinue_tail c hc)

theorem isWhitespace_of_mem_suffixText {suffix : Option Name} {c : Char}
    (hc : c ∈ suffixText suffix) : isWhitespace c = false := by
  cases suffix with
  | none => cases hc
  | some n => exact Name.isWhitespace_of_mem hc

theorem DecLiteral.isWhitespace_of_mem {d : DecLiteral} {c : Char} (hc : c ∈ d.text) :
    isWhitespace c = false := by
  rcases List.mem_cons.1 hc with rfl | hc
  · exact isWhitespace_of_isDigit d.isDigit_start
  · rcases d.isDigit_or_underscore c hc with h | rfl
    · exact isWhitespace_of_isDigit h
    · decide

theorem ExponentPart.isWhitespace_of_mem {x : ExponentPart} {c : Char} (hc : c ∈ x.text) :
    isWhitespace c = false := by
  simp only [text, List.mem_cons, List.mem_append] at hc
  rcases hc with rfl | hc | hc | hc
  · unfold marker
    split <;> decide
  · cases hsign : x.sign <;> simp_all [ExponentSign.text]
    all_goals decide
  · rw [List.eq_of_mem_replicate hc]
    decide
  · exact DecLiteral.isWhitespace_of_mem hc

theorem LiteralToken.blankless_or_alien (l : LiteralToken) :
    (∀ c ∈ l.text, isWhitespace c = false) ∨ ∃ c ∈ l.text, isAlien c = true := by
  cases l with
  | integer digits suffix =>
      left
      intro c hc
      rcases List.mem_append.1 hc with hc | hc
      · exact DecLiteral.isWhitespace_of_mem hc
      · exact isWhitespace_of_mem_suffixText hc
  | based base digits =>
      right
      exact ⟨base.letter, by simp [text], by cases base <;> decide⟩
  | point int =>
      left
      intro c hc
      rcases List.mem_append.1 hc with hc | hc
      · exact DecLiteral.isWhitespace_of_mem hc
      · rw [List.mem_singleton.1 hc]
        decide
  | decimal int frac suffix =>
      left
      intro c hc
      simp only [text, List.mem_append, List.mem_cons] at hc
      rcases hc with hc | rfl | hc | hc
      · exact DecLiteral.isWhitespace_of_mem hc
      · decide
      · exact DecLiteral.isWhitespace_of_mem hc
      · exact isWhitespace_of_mem_suffixText hc
  | scientific int frac exponent suffix =>
      left
      intro c hc
      simp only [text, List.mem_append] at hc
      rcases hc with hc | hc | hc | hc
      · exact DecLiteral.isWhitespace_of_mem hc
      · cases frac with
        | none => cases hc
        | some d =>
            rcases List.mem_cons.1 hc with rfl | hc
            · decide
            · exact DecLiteral.isWhitespace_of_mem hc
      · exact ExponentPart.isWhitespace_of_mem hc
      · exact isWhitespace_of_mem_suffixText hc
  | quoted text hasQuote =>
      right
      rcases hasQuote with ⟨c, hc, hmem⟩
      exact ⟨c, hmem, isAlien_of_mem_quotes hc⟩

theorem TokenTree.blankless_or_alien (t : TokenTree) (h : t.invisible = false) :
    (∀ c ∈ t.text, isWhitespace c = false) ∨ ∃ c ∈ t.text, isAlien c = true := by
  cases t with
  | group g =>
      right
      exact g.exists_isAlien (by simpa [invisible] using h)
  | ident i =>
      left
      have hmark : i.mark.text.any isWhitespace = false := by
        cases i.mark <;> decide
      intro c hc
      rcases List.mem_append.1 hc with hc | hc
      · simpa using List.any_eq_false.1 hmark c hc
      · exact Name.isWhitespace_of_mem hc
  | punct p =>
      left
      have hchars : punctChars.any isWhitespace = false := by decide
      intro c hc
      rw [List.mem_singleton.1 hc]
      simpa using List.any_eq_false.1 hchars p.char p.mem_punctChars
  | literal l => exact l.blankless_or_alien

/-! ## Groups without delimiters -/

theorem LiteralToken.text_ne_nil (l : LiteralToken) : l.text ≠ [] := by
  cases l with
  | quoted text hasQuote =>
      rcases hasQuote with ⟨c, -, hmem⟩
      exact List.ne_nil_of_mem hmem
  | integer digits suffix | point digits | based base digits | decimal digits frac suffix
  | scientific digits frac exponent suffix =>
      simp [text, DecLiteral.text]

theorem TokenTree.text_ne_nil (t : TokenTree) (h : t.invisible = false) : t.text ≠ [] := by
  cases t with
  | group g =>
      rcases g.exists_isAlien (by simpa [invisible] using h) with ⟨c, hc, -⟩
      exact List.ne_nil_of_mem hc
  | ident i => simp [text, Ident.text, Name.text]
  | punct p => exact List.cons_ne_nil _ _
  | literal l => exact l.text_ne_nil

theorem Padded.follow_eq_none_of_isAlien {r : Padded} {s : Text} {c : Char} (hc : c ∈ s)
    (h : isAlien c = true) : follow Padded.step r s = none := by
  have hstep : ∀ r : Padded, r.step c = none := by
    intro r
    rw [step, (isAlien_iff.1 h).2, if_neg Bool.false_ne_true]
    cases r with
    | within p => rw [inside, Phase.step_eq_none (isAlien_iff.1 h).1, Option.map_none]
    | behind => rfl
  exact follow_eq_none_of_mem hc hstep

/-- Any token takes a number with blanks around it as far as its text does. -/
theorem TokenTree.follow_padded_text (r : Padded) (t : TokenTree) :
    follow Padded.step r t.text = t.read r := by
  by_cases hinvisible : t.invisible = true
  · rw [read, if_pos hinvisible]
  have hvisible : t.invisible = false := by simpa using hinvisible
  rw [read, if_neg hinvisible]
  rcases t.blankless_or_alien hvisible with hblankless | ⟨c, hc, halien⟩
  · cases r with
    | within p => rw [Padded.follow_within hblankless, t.follow_text p hvisible, Padded.inside]
    | behind =>
        -- The number is at its end, and a token does not start with a blank.
        cases htext : t.text with
        | nil => exact absurd htext (t.text_ne_nil hvisible)
        | cons c s =>
            have hc : isWhitespace c = false := hblankless c (by simp [htext])
            rw [follow_cons, Padded.step, hc, if_neg Bool.false_ne_true]
            rfl
  · have hadvance : ∀ p : Phase, t.advance p = none := by
      intro p
      rw [← t.follow_text p hvisible, Phase.follow_eq_none_of_isAlien hc halien]
    rw [Padded.follow_eq_none_of_isAlien hc halien]
    cases r with
    | within p => rw [Padded.inside, hadvance, Option.map_none]
    | behind => rfl

/-- The token sequences that pass the test. -/
theorem isNumericLiteralStr_joined_iff (tokens : List TokenTree) :
    isNumericLiteralStr (joined tokens) = .ok true ↔ SpellsPadded tokens := by
  have hfollow : follow Padded.step (.within .start) (joined tokens) =
      follow TokenTree.read (.within .start) tokens :=
    follow_flatMap (fun t _ r => t.follow_padded_text r) _
  rw [isNumericLiteralStr_eq_true_iff, SpellsPadded, exists_numericText_trim_iff, hfollow]

/-- Without such groups there are no blanks. -/
theorem spellsPadded_iff {tokens : List TokenTree} (h : ∀ t ∈ tokens, t.invisible = false) :
    SpellsPadded tokens ↔ SpellsNumber tokens := by
  have hfollow : ∀ p, follow TokenTree.read (.within p) tokens =
      (follow TokenTree.advance p tokens).map .within := by
    induction tokens with
    | nil => exact fun _ => rfl
    | cons t ts ih =>
        intro p
        have ht : ¬ t.invisible = true := by simp [h t]
        rw [follow_cons, follow_cons, TokenTree.read, if_neg ht, Padded.inside]
        cases t.advance p with
        | none => rfl
        | some q => exact ih (fun u hu => h u (List.mem_cons_of_mem t hu)) q
  rw [SpellsPadded, SpellsNumber, hfollow]
  constructor
  · rintro ⟨r, hr, hcomplete⟩
    rcases Option.map_eq_some_iff.1 hr with ⟨p, hp, rfl⟩
    exact ⟨p, hp, hcomplete⟩
  · rintro ⟨p, hp, hcomplete⟩
    exact ⟨.within p, by rw [hp, Option.map_some], hcomplete⟩

end FloatMacro
end RainFloat
