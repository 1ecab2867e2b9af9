import RainFloat.FloatMacro.NumericStr
import RainFloat.Reference.Reading

/-!
# NumericText — the texts that pass the test

A `NumericText` is the parse tree of `-?M([eE][+-]?[0-9]+)?`, where the mantissa `M` is a nonempty
text of digits and at most one point.  A lone point is a mantissa.

* `isNumericLiteralStr_spec`: the test returns on every text, and is passed by the texts that are
  numeric once trimmed;
* `Literal.exists_numericText`, `NumericText.isLiteral_or_gapped`: a numeric text is a decimal
  literal, but for a point with nothing on one side of it.
-/

namespace RainFloat
namespace FloatMacro

open Foundation Reference

/-! ## Numeric texts -/

/-- A nonempty text of digits and at most one point. -/
structure Mantissa where
  chars : Text
  nonempty : chars ≠ []
  isDigit_or_point : ∀ c ∈ chars, c.isDigit = true ∨ c = '.'
  count_point : chars.count '.' ≤ 1

/-- A mantissa between an optional minus sign and an optional exponent. -/
structure NumericText where
  negative : Bool
  mantissa : Mantissa
  exponent : Option Exponent

def minusText (negative : Bool) : Text :=
  if negative then ['-'] else []

def exponentText (x : Option Exponent) : Text :=
  x.elim [] Exponent.text

def NumericText.text (n : NumericText) : Text :=
  minusText n.negative ++ (n.mantissa.chars ++ exponentText n.exponent)

/-! ## Their characters -/

theorem isMarker_iff {c : Char} : isMarker c = true ↔ c = 'e' ∨ c = 'E' := by
  simp [isMarker]

theorem utf8Size_of_isMarker {c : Char} (h : isMarker c = true) : c.utf8Size = 1 := by
  rcases isMarker_iff.1 h with rfl | rfl <;> rfl

/-- The characters numeric texts are made of. -/
def isNumberChar (c : Char) : Bool :=
  c.isDigit || c = '.' || isMarker c || isSign c

theorem toNat_of_isDigit {c : Char} (h : c.isDigit = true) : 48 ≤ c.toNat ∧ c.toNat ≤ 57 := by
  simpa [Char.isDigit, UInt32.le_iff_toNat_le] using h

theorem isWhitespace_of_isDigit {c : Char} (h : c.isDigit = true) : isWhitespace c = false := by
  have hval := toNat_of_isDigit h
  simp [isWhitespace]
  omega

theorem isWhitespace_of_isNumberChar {c : Char} (h : isNumberChar c = true) :
    isWhitespace c = false := by
  simp only [isNumberChar, isMarker, isSign, Bool.or_eq_true, decide_eq_true_eq] at h
  rcases h with ((h | rfl) | rfl | rfl) | rfl | rfl
  · exact isWhitespace_of_isDigit h
  all_goals decide

theorem isNumberChar_of_isDigit {c : Char} (h : c.isDigit = true) : isNumberChar c = true := by
  simp [isNumberChar, h]

theorem Mantissa.not_isMarker (m : Mantissa) {c : Char} (hc : c ∈ m.chars) :
    isMarker c = false := by
  rcases m.isDigit_or_point c hc with h | rfl
  · have h1 : c ≠ 'e' := ne_of_isDigit h rfl
    have h2 : c ≠ 'E' := ne_of_isDigit h rfl
    simp [isMarker, h1, h2]
  · rfl

theorem isNumberChar_of_mem_exponentText {x : Option Exponent} {c : Char}
    (hc : c ∈ exponentText x) : isNumberChar c = true := by
  cases x with
  | none => simp [exponentText] at hc
  | some x =>
      simp only [exponentText, Option.elim_some, Exponent.text, List.mem_cons,
        List.mem_append] at hc
      rcases hc with rfl | hc | hc
      · simp [isNumberChar, isMarker_iff.2 x.marker_cases]
      · cases hsign : x.sign <;> simp_all [ExponentSign.text, isNumberChar, isSign]
      · exact isNumberChar_of_isDigit (x.digits.isDigit c hc)

theorem NumericText.isNumberChar_of_mem {n : NumericText} {c : Char} (hc : c ∈ n.text) :
    isNumberChar c = true := by
  simp only [NumericText.text, List.mem_append] at hc
  rcases hc with hc | hc | hc
  · unfold minusText at hc
    split at hc
    · rw [List.mem_singleton.1 hc]
      rfl
    · cases hc
  · rcases n.mantissa.isDigit_or_point c hc with h | rfl
    · exact isNumberChar_of_isDigit h
    · rfl
  · exact isNumberChar_of_mem_exponentText hc

/-- A numeric text has no blanks to trim. -/
theorem NumericText.trim_text (n : NumericText) : trim n.text = n.text :=
  trimMatches_eq_self fun _ hc => isWhitespace_of_isNumberChar (isNumberChar_of_mem hc)

/-! ## What the parts of the test decide -/

theorem scanMantissa_iff (seenDot : Bool) (s : Text) :
    scanMantissa seenDot s = true ↔
      (∀ c ∈ s, c.isDigit = true ∨ c = '.') ∧ s.count '.' + seenDot.toNat ≤ 1 := by
  induction s generalizing seenDot with
  | nil => cases seenDot <;> simp [scanMantissa]
  | cons c t ih =>
      by_cases hdot : c = '.'
      · subst hdot
        cases seenDot with
        | true => simp [scanMantissa]
        | false => simp [scanMantissa, ih]
      · by_cases hdigit : c.isDigit = true
        · simp [scanMantissa, hdot, hdigit, ih]
        · simp [scanMantissa, hdot, hdigit]

theorem exists_digits_iff (s : Text) :
    (!s.isEmpty && s.all Char.isDigit) = true ↔ ∃ d : DigitText, s = d.chars := by
  simp only [Bool.and_eq_true, Bool.not_eq_true', List.isEmpty_eq_false_iff, List.all_eq_true]
  constructor
  · rintro ⟨hne, hall⟩
    exact ⟨⟨s, hne, hall⟩, rfl⟩
  · rintro ⟨d, rfl⟩
    exact ⟨d.nonempty, d.isDigit⟩

theorem stripPrefix_eq_some {p : Char} {s t : Text} (h : stripPrefix p s = some t) :
    s = p :: t := by
  cases s with
  | nil => cases h
  | cons c u =>
      rw [stripPrefix] at h
      split at h
      · rename_i hc
        rw [hc, Option.some.inj h]
      · cases h

theorem stripPrefixMatching_eq_some {p : Char → Bool} {s t : Text}
    (h : stripPrefixMatching p s = some t) : ∃ c, p c = true ∧ s = c :: t := by
  cases s with
  | nil => cases h
  | cons c u =>
      rw [stripPrefixMatching] at h
      split at h
      · rename_i hc
        exact ⟨c, hc, by rw [Option.some.inj h]⟩
      · cases h

theorem stripPrefixMatching_digits (d : DigitText) :
    stripPrefixMatching isSign d.chars = none := by
  rcases d.exists_cons with ⟨c, t, hct, hc⟩
  have h1 : c ≠ '+' := ne_of_isDigit hc rfl
  have h2 : c ≠ '-' := ne_of_isDigit hc rfl
  simp [hct, stripPrefixMatching, isSign, h1, h2]

/-- One sign is dropped, whichever it is, and a digit is none. -/
theorem exponentDigits_iff (s : Text) :
    exponentDigits (some s) = true ↔
      ∃ (sign : ExponentSign) (digits : DigitText), s = sign.text ++ digits.chars := by
  rw [exponentDigits, exists_digits_iff]
  constructor
  · rintro ⟨d, hd⟩
    cases hs : stripPrefixMatching isSign s with
    | none =>
        rw [hs, Option.getD_none] at hd
        exact ⟨.none, d, hd⟩
    | some t =>
        rw [hs, Option.getD_some] at hd
        rcases stripPrefixMatching_eq_some hs with ⟨c, hc, rfl⟩
        simp only [isSign, Bool.or_eq_true, decide_eq_true_eq] at hc
        rw [hd]
        rcases hc with rfl | rfl
        · exact ⟨.plus, d, rfl⟩
        · exact ⟨.minus, d, rfl⟩
  · rintro ⟨sign, d, rfl⟩
    refine ⟨d, ?_⟩
    cases sign with
    | plus => rfl
    | minus => rfl
    | none => rw [ExponentSign.text, List.nil_append, stripPrefixMatching_digits, Option.getD_none]

theorem splitMarker_of_not_isMarker {s : Text} (h : ∀ c ∈ s, isMarker c = false) :
    splitMarker s = .ok (s, none) := by
  rw [splitMarker, find_eq_none h]
  rfl

/-- The marker is one byte long, so that both slices end between characters. -/
theorem splitMarker_append {l r : Text} {c : Char} (hl : ∀ a ∈ l, isMarker a = false)
    (hc : isMarker c = true) : splitMarker (l ++ c :: r) = .ok (l, some r) := by
  rw [splitMarker, find_append hl hc]
  simp only [sliceTo_append, sliceFrom_append_cons l r (utf8Size_of_isMarker hc)]
  rfl

/-! ## The test -/

/-- The characters of a mantissa pass its part of the test. -/
theorem exists_mantissa_iff (s : Text) :
    (!s.isEmpty && scanMantissa false s) = true ↔ ∃ m : Mantissa, s = m.chars := by
  simp only [Bool.and_eq_true, Bool.not_eq_true', List.isEmpty_eq_false_iff, scanMantissa_iff]
  constructor
  · rintro ⟨hne, hchars, hcount⟩
    exact ⟨⟨s, hne, hchars, hcount⟩, rfl⟩
  · rintro ⟨m, rfl⟩
    exact ⟨m.nonempty, m.isDigit_or_point, m.count_point⟩

/-- The parts of a text without its minus sign pass if they are a mantissa and an exponent. -/
theorem splitMarker_spec (s : Text) :
    ∃ m x, splitMarker s = .ok (m, x) ∧
      ((!m.isEmpty && scanMantissa false m && exponentDigits x) = true ↔
        ∃ (m : Mantissa) (x : Option Exponent), s = m.chars ++ exponentText x) := by
  rcases forall_or_exists_first isMarker s with h | ⟨l, c, r, rfl, hl, hc⟩
  · refine ⟨_, _, splitMarker_of_not_isMarker h, ?_⟩
    rw [exponentDigits, Bool.and_true, exists_mantissa_iff]
    constructor
    · rintro ⟨m, rfl⟩
      exact ⟨m, none, by simp [exponentText]⟩
    · rintro ⟨m, x, rfl⟩
      cases x with
      | none => exact ⟨m, by simp [exponentText]⟩
      | some x =>
          -- An exponent brings a marker along.
          have hmarker := h x.marker (by simp [exponentText, Exponent.text])
          rw [isMarker_iff.2 x.marker_cases] at hmarker
          cases hmarker
  · refine ⟨_, _, splitMarker_append hl hc, ?_⟩
    rw [Bool.and_eq_true, exists_mantissa_iff, exponentDigits_iff]
    constructor
    · rintro ⟨⟨m, rfl⟩, sign, d, rfl⟩
      refine ⟨m, some ⟨c = 'E', sign, d⟩, ?_⟩
      simp [exponentText, Exponent.text, Exponent.marker, ite_marker (isMarker_iff.1 hc)]
    · rintro ⟨m, x, hs⟩
      -- Both sides are cut at their first marker.
      have hcut := splitOnce_of_append (r := r) hl hc
      rw [hs] at hcut
      cases x with
      | none =>
          rw [exponentText, Option.elim_none, List.append_nil,
            splitOnce_eq_none fun _ ha => m.not_isMarker ha] at hcut
          cases hcut
      | some x =>
          rw [exponentText, Option.elim_some, Exponent.text,
            splitOnce_of_append (fun _ ha => m.not_isMarker ha)
              (isMarker_iff.2 x.marker_cases)] at hcut
          cases hcut
          exact ⟨⟨m, rfl⟩, x.sign, x.digits, rfl⟩

/-- The test of the parts of a text. -/
theorem isNumericLiteralStr_of_splitMarker {input m : Text} {x : Option Text}
    (h : splitMarker ((stripPrefix '-' (trim input)).getD (trim input)) = .ok (m, x)) :
    isNumericLiteralStr input =
      .ok (!m.isEmpty && scanMantissa false m && exponentDigits x) := by
  unfold isNumericLiteralStr
  dsimp only
  rw [h]
  change (if m.isEmpty = true then pure false
    else if (!scanMantissa false m) = true then pure false
    else pure (exponentDigits x) : Except SliceError Bool) = _
  cases hm : m.isEmpty with
  | true => simp [pure, Except.pure]
  | false => cases hscan : scanMantissa false m <;> simp [pure, Except.pure]

theorem Mantissa.exists_cons (m : Mantissa) : ∃ c t, m.chars = c :: t ∧ c ≠ '-' := by
  cases h : m.chars with
  | nil => exact absurd h m.nonempty
  | cons c t =>
      refine ⟨c, t, rfl, ?_⟩
      rcases m.isDigit_or_point c (by simp [h]) with hc | rfl
      · exact ne_of_isDigit hc rfl
      · decide

/-- The test returns, and only the numeric texts pass it. -/
theorem isNumericLiteralStr_spec (s : Text) :
    ∃ b, isNumericLiteralStr s = .ok b ∧ (b = true ↔ ∃ n : NumericText, n.text = trim s) := by
  rcases splitMarker_spec ((stripPrefix '-' (trim s)).getD (trim s)) with ⟨m, x, hsplit, hiff⟩
  refine ⟨_, isNumericLiteralStr_of_splitMarker hsplit, hiff.trans ?_⟩
  constructor
  · rintro ⟨m, x, htext⟩
    cases hstrip : stripPrefix '-' (trim s) with
    | none =>
        rw [hstrip, Option.getD_none] at htext
        exact ⟨⟨false, m, x⟩, by simp [NumericText.text, minusText, htext]⟩
    | some t =>
        rw [hstrip, Option.getD_some] at htext
        rw [stripPrefix_eq_some hstrip, htext]
        exact ⟨⟨true, m, x⟩, rfl⟩
  · rintro ⟨⟨negative, m, x⟩, htext⟩
    refine ⟨m, x, ?_⟩
    rw [← htext]
    cases negative with
    | true => rfl
    | false =>
        rcases m.exists_cons with ⟨c, t, hct, hc⟩
        simp [NumericText.text, minusText, stripPrefix, hct, hc]

theorem isNumericLiteralStr_eq_true_iff {s : Text} :
    isNumericLiteralStr s = .ok true ↔ ∃ n : NumericText, n.text = trim s := by
  rcases isNumericLiteralStr_spec s with ⟨b, hb, hiff⟩
  rw [hb, ← hiff]
  simp

/-! ## Decimal literals -/

/-- The mantissa of a literal without its sign. -/
def literalMantissa (l : Literal) : Mantissa where
  chars := l.int.chars ++ l.frac.elim [] (fun d => '.' :: d.chars)
  nonempty := by simp [l.int.nonempty]
  isDigit_or_point := by
    intro c hc
    rcases List.mem_append.1 hc with h | h
    · exact Or.inl (l.int.isDigit c h)
    · cases hf : l.frac with
      | none => simp [hf] at h
      | some d =>
          rw [hf, Option.elim_some, List.mem_cons] at h
          exact h.symm.imp_left (d.isDigit c)
  count_point := by
    have hcount : ∀ d : DigitText, d.chars.count '.' = 0 := by
      intro d
      rw [List.count_eq_zero]
      intro h
      exact ne_of_isDigit (d.isDigit _ h) rfl rfl
    cases l.frac <;> simp [hcount]

theorem Literal.exists_numericText (l : Literal) : ∃ n : NumericText, n.text = l.text := by
  refine ⟨⟨l.negative, literalMantissa l, l.exponent⟩, ?_⟩
  rw [l.text_eq, ← List.append_assoc l.int.chars]
  rfl

/-- A literal but for a point that has no digits in front of it or none behind it. -/
structure GappedLiteral where
  negative : Bool
  int : Text
  frac : Text
  isDigit_int : ∀ c ∈ int, c.isDigit = true
  isDigit_frac : ∀ c ∈ frac, c.isDigit = true
  gap : int = [] ∨ frac = []
  exponent : Option Exponent

def GappedLiteral.text (g : GappedLiteral) : Text :=
  minusText g.negative ++ (g.int ++ '.' :: g.frac ++ exponentText g.exponent)

/-- A mantissa is a run of digits, or two runs around a point that may be empty. -/
theorem Mantissa.digits_or_point (m : Mantissa) :
    (∃ d : DigitText, m.chars = d.chars) ∨
      ∃ int frac : Text, m.chars = int ++ '.' :: frac ∧ (∀ c ∈ int, c.isDigit = true) ∧
        ∀ c ∈ frac, c.isDigit = true := by
  rcases forall_or_exists_first (fun c => decide (c = '.')) m.chars with h | ⟨l, c, r, hm, hl, hc⟩
  · left
    refine ⟨⟨m.chars, m.nonempty, fun c hc => ?_⟩, rfl⟩
    exact (m.isDigit_or_point c hc).resolve_right (by simpa using h c hc)
  · right
    have hc' : c = '.' := by simpa using hc
    subst hc'
    have hl' : '.' ∉ l := fun h => by simpa using hl _ h
    -- The count leaves no second point.
    have hr' : '.' ∉ r := by
      have hcount := m.count_point
      rw [hm, List.count_append, List.count_cons_self] at hcount
      exact List.count_eq_zero.1 (by omega)
    have hdigit : ∀ c ∈ m.chars, c ≠ '.' → c.isDigit = true := fun c hc hne =>
      (m.isDigit_or_point c hc).resolve_right hne
    refine ⟨l, r, hm, fun c hc => ?_, fun c hc => ?_⟩
    · exact hdigit c (by simp [hm, hc]) (ne_of_mem_of_not_mem hc hl')
    · exact hdigit c (by simp [hm, hc]) (ne_of_mem_of_not_mem hc hr')

theorem NumericText.isLiteral_or_gapped (n : NumericText) :
    IsLiteral n.text ∨ ∃ g : GappedLiteral, n.text = g.text := by
  rcases n with ⟨negative, m, x⟩
  rcases m.digits_or_point with ⟨d, hd⟩ | ⟨int, frac, hm, hint, hfrac⟩
  · left
    refine ⟨⟨negative, d, none, x⟩, ?_⟩
    simp [NumericText.text, Literal.text, Literal.mantissaText, Literal.signText, minusText,
      exponentText, hd]
  · by_cases hgap : int = [] ∨ frac = []
    · right
      exact ⟨⟨negative, int, frac, hint, hfrac, hgap, x⟩, by
        simp [NumericText.text, GappedLiteral.text, hm]⟩
    · left
      push Not at hgap
      refine ⟨⟨negative, ⟨int, hgap.1, hint⟩, some ⟨frac, hgap.2, hfrac⟩, x⟩, ?_⟩
      simp [NumericText.text, Literal.text, Literal.mantissaText, Literal.signText, minusText,
        exponentText, hm]

theorem isNumericLiteralStr_of_isLiteral {s : Text} (h : IsLiteral s) :
    isNumericLiteralStr s = .ok true := by
  rcases h with ⟨l, rfl⟩
  rcases Literal.exists_numericText l with ⟨n, hn⟩
  rw [isNumericLiteralStr_eq_true_iff]
  exact ⟨n, by rw [← hn, n.trim_text]⟩

end FloatMacro
end RainFloat
