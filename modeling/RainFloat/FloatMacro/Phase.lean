import RainFloat.Foundation.Automaton
import RainFloat.FloatMacro.NumericText

/-!
# Phase — numeric texts read from left to right

The texts that pass the test are those an automaton reads to the end.  Its states say how much of a
number has been read, which is all that matters for what may follow.

* `Phase.step_cases`: what one character can do;
* `exists_numericText_iff`: the numeric texts are the texts read to a complete phase;
* `exists_numericText_trim_iff`: and so they are with blanks around them.
-/

namespace RainFloat
namespace FloatMacro

open Foundation Reference

/-- How much of a number has been read.  A mantissa remembers whether it has its point. -/
inductive Phase
  | start
  | minus
  | mantissa (point : Bool)
  | marker
  | sign
  | exponent
  deriving DecidableEq, Repr

namespace Phase

/-- What has been read is a number. -/
def complete : Phase → Bool
  | .mantissa _ | .exponent => true
  | .start | .minus | .marker | .sign => false

/-- Digits may follow anything. -/
def digit : Phase → Phase
  | .start | .minus => .mantissa false
  | .mantissa point => .mantissa point
  | .marker | .sign | .exponent => .exponent

def point : Phase → Option Phase
  | .start | .minus | .mantissa false => some (.mantissa true)
  | .mantissa true | .marker | .sign | .exponent => none

def mark : Phase → Option Phase
  | .mantissa _ => some .marker
  | .start | .minus | .marker | .sign | .exponent => none

def plus : Phase → Option Phase
  | .marker => some .sign
  | .start | .minus | .mantissa _ | .sign | .exponent => none

def dash : Phase → Option Phase
  | .start => some .minus
  | .marker => some .sign
  | .minus | .mantissa _ | .sign | .exponent => none

def step (p : Phase) (c : Char) : Option Phase :=
  if c.isDigit then some p.digit
  else if c = '.' then p.point
  else if isMarker c then p.mark
  else if c = '+' then p.plus
  else if c = '-' then p.dash
  else none

variable {p q : Phase} {c : Char} {s t : Text}

@[simp] theorem digit_digit (p : Phase) : p.digit.digit = p.digit := by
  cases p <;> rfl

@[simp] theorem step_point (p : Phase) : p.step '.' = p.point :=
  rfl

@[simp] theorem step_plus (p : Phase) : p.step '+' = p.plus :=
  rfl

@[simp] theorem step_dash (p : Phase) : p.step '-' = p.dash :=
  rfl

theorem step_of_isDigit (h : c.isDigit = true) : p.step c = some p.digit :=
  if_pos h

theorem step_of_isMarker (h : isMarker c = true) : p.step c = p.mark := by
  rcases isMarker_iff.1 h with rfl | rfl <;> rfl

/-- What one character can do. -/
theorem step_cases (h : p.step c = some q) :
    (c.isDigit = true ∧ q = p.digit) ∨ (c = '.' ∧ p.point = some q) ∨
      (isMarker c = true ∧ p.mark = some q) ∨ (c = '+' ∧ p.plus = some q) ∨
      (c = '-' ∧ p.dash = some q) := by
  unfold step at h
  split at h
  · rename_i hc
    exact Or.inl ⟨hc, (Option.some.inj h).symm⟩
  split at h
  · rename_i hc
    exact Or.inr (Or.inl ⟨hc, h⟩)
  split at h
  · rename_i hc
    exact Or.inr (Or.inr (Or.inl ⟨hc, h⟩))
  split at h
  · rename_i hc
    exact Or.inr (Or.inr (Or.inr (Or.inl ⟨hc, h⟩)))
  split at h
  · rename_i hc
    exact Or.inr (Or.inr (Or.inr (Or.inr ⟨hc, h⟩)))
  · cases h

/-- Only the characters of numbers are read at all. -/
theorem step_eq_none (h : isNumberChar c = false) : p.step c = none := by
  cases hstep : p.step c with
  | none => rfl
  | some q =>
      rcases step_cases hstep with ⟨hc, -⟩ | ⟨rfl, -⟩ | ⟨hc, -⟩ | ⟨rfl, -⟩ | ⟨rfl, -⟩
      · rw [isNumberChar_of_isDigit hc] at h
        cases h
      · cases h
      · simp [isNumberChar, hc] at h
      · cases h
      · cases h

theorem mark_eq_some (h : p.mark = some q) : q = .marker ∧ ∃ point, p = .mantissa point := by
  cases p <;> cases h
  exact ⟨rfl, _, rfl⟩

theorem point_eq_some (h : p.point = some q) : q = .mantissa true := by
  unfold point at h
  split at h
  all_goals cases h
  all_goals rfl

/-- Nothing leads back to the start. -/
theorem step_ne_start (h : p.step c = some q) : q ≠ start := by
  rintro rfl
  rcases step_cases h with ⟨-, hq⟩ | ⟨-, hq⟩ | ⟨-, hq⟩ | ⟨-, hq⟩ | ⟨-, hq⟩
  · cases p <;> cases hq
  · cases point_eq_some hq
  · cases (mark_eq_some hq).1
  · cases p <;> cases hq
  · cases p <;> cases hq

/-! ## Reading a text -/

theorem follow_of_isDigit (h : ∀ c ∈ s, c.isDigit = true) (hne : s ≠ []) :
    follow step p s = some p.digit :=
  follow_of_idempotent digit_digit (fun c hc _ => step_of_isDigit (h c hc)) hne

@[simp] theorem follow_digits (p : Phase) (d : DigitText) :
    follow step p d.chars = some p.digit :=
  follow_of_isDigit d.isDigit d.nonempty

theorem follow_eq_none (hc : c ∈ s) (h : isNumberChar c = false) : follow step p s = none :=
  follow_eq_none_of_mem hc fun _ => step_eq_none h

/-! ## Numeric texts are read to the end -/

/-- The point of a mantissa may have digits in front of it and behind it. -/
theorem follow_mantissa (m : Mantissa) (hp : p = .start ∨ p = .minus) :
    ∃ point, follow step p m.chars = some (.mantissa point) := by
  have hdigit : p.digit = .mantissa false := by
    rcases hp with rfl | rfl <;> rfl
  have hpoint : p.point = some (.mantissa true) := by
    rcases hp with rfl | rfl <;> rfl
  rcases m.digits_or_point with ⟨d, hd⟩ | ⟨int, frac, hm, hint, hfrac⟩
  · exact ⟨false, by rw [hd, follow_digits, hdigit]⟩
  · refine ⟨true, ?_⟩
    have hbefore : follow step p (int ++ ['.']) = some (.mantissa true) := by
      rw [follow_append]
      by_cases hi : int = []
      · simp [hi, hpoint]
      · simp [follow_of_isDigit hint hi, hdigit, point]
    have hafter : follow step (mantissa true) frac = some (.mantissa true) := by
      by_cases hf : frac = []
      · rw [hf, follow_nil]
      · rw [follow_of_isDigit hfrac hf]
        rfl
    have hsplit : m.chars = (int ++ ['.']) ++ frac := by
      rw [hm, List.append_assoc]
      rfl
    rw [hsplit, follow_append, hbefore, Option.bind_some, hafter]

theorem follow_exponentText (point : Bool) (x : Option Exponent) :
    ∃ q, follow step (mantissa point) (exponentText x) = some q ∧ q.complete = true := by
  cases x with
  | none => exact ⟨_, rfl, rfl⟩
  | some x =>
      refine ⟨.exponent, ?_, rfl⟩
      have hmarker : (mantissa point).step x.marker = some .marker :=
        step_of_isMarker (isMarker_iff.2 x.marker_cases)
      simp only [exponentText, Option.elim_some, Exponent.text, follow_cons, hmarker,
        Option.bind_some]
      cases x.sign <;> simp [ExponentSign.text, digit, plus, dash]

theorem follow_numericText (n : NumericText) :
    ∃ q, follow step start n.text = some q ∧ q.complete = true := by
  have hminus : ∃ p, follow step start (minusText n.negative) = some p ∧
      (p = .start ∨ p = .minus) := by
    cases n.negative with
    | true => exact ⟨.minus, rfl, Or.inr rfl⟩
    | false => exact ⟨.start, rfl, Or.inl rfl⟩
  rcases hminus with ⟨p, hp, hcases⟩
  rcases follow_mantissa n.mantissa hcases with ⟨point, hm⟩
  rcases follow_exponentText point n.exponent with ⟨q, hq, hcomplete⟩
  refine ⟨q, ?_, hcomplete⟩
  rw [NumericText.text, follow_append, hp, Option.bind_some, follow_append, hm, Option.bind_some,
    hq]

/-! ## What is read to the end is numeric -/

/-- The texts that complete a number. -/
def Completes : Phase → Text → Prop
  | .start, s => ∃ n : NumericText, s = n.text
  | .minus, s => ∃ (m : Mantissa) (x : Option Exponent), s = m.chars ++ exponentText x
  | .mantissa point, s => ∃ (t : Text) (x : Option Exponent),
      (∀ c ∈ t, c.isDigit = true ∨ c = '.') ∧ t.count '.' + point.toNat ≤ 1 ∧
        s = t ++ exponentText x
  | .marker, s => ∃ (sign : ExponentSign) (d : DigitText), s = sign.text ++ d.chars
  | .sign, s => ∃ d : DigitText, s = d.chars
  | .exponent, s => ∀ c ∈ s, c.isDigit = true

theorem completes_nil (h : p.complete = true) : p.Completes [] := by
  cases p with
  | mantissa point => exact ⟨[], none, by simp, by cases point <;> decide, rfl⟩
  | exponent => simp [Completes]
  | start | minus | marker | sign => cases h

/-- A mantissa that starts with a digit or the point. -/
theorem completes_minus_of_mantissa {point : Bool} (hc : c.isDigit = true ∨ c = '.')
    (hpoint : [c].count '.' = point.toNat) (h : (mantissa point).Completes s) :
    minus.Completes (c :: s) := by
  rcases h with ⟨t, x, ht, hcount, rfl⟩
  refine ⟨⟨c :: t, List.cons_ne_nil _ _, ?_, ?_⟩, x, rfl⟩
  · intro a ha
    rcases List.mem_cons.1 ha with rfl | ha
    · exact hc
    · exact ht a ha
  · have hsplit : ([c] ++ t).count '.' = [c].count '.' + t.count '.' := List.count_append
    rw [List.singleton_append] at hsplit
    omega

theorem completes_start_of_minus (h : minus.Completes s) : start.Completes s := by
  rcases h with ⟨m, x, rfl⟩
  exact ⟨⟨false, m, x⟩, rfl⟩

theorem count_point_of_isDigit (h : c.isDigit = true) : [c].count '.' = 0 := by
  have hne : c ≠ '.' := ne_of_isDigit h rfl
  simp [hne]

/-- A digit in front of what completes a number. -/
theorem completes_of_digit (hc : c.isDigit = true) (h : p.digit.Completes s) :
    p.Completes (c :: s) := by
  have hminus : (mantissa false).Completes s → minus.Completes (c :: s) :=
    completes_minus_of_mantissa (Or.inl hc) (count_point_of_isDigit hc)
  have hcons : exponent.Completes s → ∀ a ∈ c :: s, a.isDigit = true := by
    intro hs a ha
    rcases List.mem_cons.1 ha with rfl | ha
    · exact hc
    · exact hs a ha
  have hdigits : exponent.Completes s → ∃ d : DigitText, c :: s = d.chars := fun hs =>
    ⟨⟨c :: s, List.cons_ne_nil _ _, hcons hs⟩, rfl⟩
  cases p with
  | start => exact completes_start_of_minus (hminus h)
  | minus => exact hminus h
  | mantissa point =>
      rcases h with ⟨t, x, ht, hcount, rfl⟩
      refine ⟨c :: t, x, by simpa [hc] using ht, ?_, rfl⟩
      rw [List.count_cons_of_ne (ne_of_isDigit hc rfl)]
      exact hcount
  | marker =>
      rcases hdigits h with ⟨d, hd⟩
      exact ⟨.none, d, hd⟩
  | sign => exact hdigits h
  | exponent => exact hcons h

theorem completes_of_step (hstep : p.step c = some q) (h : q.Completes s) :
    p.Completes (c :: s) := by
  rcases step_cases hstep with ⟨hc, rfl⟩ | ⟨rfl, hq⟩ | ⟨hc, hq⟩ | ⟨rfl, hq⟩ | ⟨rfl, hq⟩
  · exact completes_of_digit hc h
  · -- The point of the mantissa.
    have hminus : (mantissa true).Completes s → minus.Completes ('.' :: s) :=
      completes_minus_of_mantissa (Or.inr rfl) rfl
    cases p with
    | start =>
        cases hq
        exact completes_start_of_minus (hminus h)
    | minus =>
        cases hq
        exact hminus h
    | mantissa point =>
        cases point with
        | true => cases hq
        | false =>
            cases hq
            rcases h with ⟨t, x, ht, hcount, rfl⟩
            refine ⟨'.' :: t, x, by simpa using ht, ?_, rfl⟩
            rw [List.count_cons_self]
            exact hcount
    | marker | sign | exponent => cases hq
  · -- The marker of the exponent.
    rcases mark_eq_some hq with ⟨rfl, point, rfl⟩
    rcases h with ⟨sign, d, rfl⟩
    refine ⟨[], some ⟨c = 'E', sign, d⟩, by simp, by cases point <;> decide, ?_⟩
    simp [exponentText, Exponent.text, Exponent.marker, ite_marker (isMarker_iff.1 hc)]
  · cases p <;> cases hq
    rcases h with ⟨d, rfl⟩
    exact ⟨.plus, d, rfl⟩
  · cases p with
    | start =>
        cases hq
        rcases h with ⟨m, x, rfl⟩
        exact ⟨⟨true, m, x⟩, rfl⟩
    | marker =>
        cases hq
        rcases h with ⟨d, rfl⟩
        exact ⟨.minus, d, rfl⟩
    | minus | mantissa _ | sign | exponent => cases hq

theorem completes_of_follow (h : follow step p s = some q) (hq : q.complete = true) :
    p.Completes s :=
  of_follow (fun hstep hs => completes_of_step hstep hs) h (completes_nil hq)

end Phase

/-- The numeric texts are the texts that are read to the end of a number. -/
theorem exists_numericText_iff (s : Text) :
    (∃ n : NumericText, n.text = s) ↔
      ∃ q, follow Phase.step .start s = some q ∧ q.complete = true := by
  constructor
  · rintro ⟨n, rfl⟩
    exact Phase.follow_numericText n
  · rintro ⟨q, hfollow, hcomplete⟩
    rcases Phase.completes_of_follow hfollow hcomplete with ⟨n, rfl⟩
    exact ⟨n, rfl⟩

/-! ## Blanks around a number -/

/-- How far a number has been read that may have blanks on both sides. -/
inductive Padded
  | within (p : Phase)
  | behind
  deriving DecidableEq, Repr

namespace Padded

/-- A blank in front of a number, or behind one. -/
def blank : Padded → Option Padded
  | .within .start => some (.within .start)
  | .within p => if p.complete then some .behind else none
  | .behind => some .behind

/-- What belongs to the number stands between the blanks. -/
def inside (f : Phase → Option Phase) : Padded → Option Padded
  | .within p => (f p).map .within
  | .behind => none

def step (r : Padded) (c : Char) : Option Padded :=
  if isWhitespace c then r.blank else r.inside fun p => p.step c

def complete : Padded → Bool
  | .within p => p.complete
  | .behind => true

variable {p : Phase} {r : Padded} {s : Text}

/-- Between the blanks the number is read as it is without them. -/
theorem follow_within (h : ∀ c ∈ s, isWhitespace c = false) (p : Phase) :
    follow step (within p) s = (follow Phase.step p s).map within := by
  induction s generalizing p with
  | nil => rfl
  | cons c t ih =>
      have hc : isWhitespace c = false := h c List.mem_cons_self
      have hstep : (within p).step c = (p.step c).map within := by
        rw [step, hc, if_neg Bool.false_ne_true, inside]
      rw [follow_cons, follow_cons, hstep]
      cases p.step c with
      | none => rfl
      | some q => exact ih (fun a ha => h a (List.mem_cons_of_mem c ha)) q

/-- Blanks in front leave everything to be read. -/
theorem follow_start_of_blank (h : ∀ c ∈ s, isWhitespace c = true) :
    follow step (within .start) s = some (within .start) := by
  induction s with
  | nil => rfl
  | cons c t ih =>
      have hstep : (within .start).step c = some (within .start) := by
        rw [step, if_pos (h c List.mem_cons_self)]
        rfl
      rw [follow_cons, hstep, Option.bind_some]
      exact ih fun a ha => h a (List.mem_cons_of_mem c ha)

/-- Blanks behind leave a number complete. -/
theorem follow_complete_of_blank (h : ∀ c ∈ s, isWhitespace c = true) (hr : r.complete = true) :
    ∃ r', follow step r s = some r' ∧ r'.complete = true := by
  induction s generalizing r with
  | nil => exact ⟨r, rfl, hr⟩
  | cons c t ih =>
      have hblank : r.blank = some behind := by
        cases r with
        | within p => cases p <;> first | rfl | cases hr
        | behind => rfl
      have hstep : r.step c = some behind := by
        rw [step, if_pos (h c List.mem_cons_self), hblank]
      rw [follow_cons, hstep, Option.bind_some]
      exact ih (fun a ha => h a (List.mem_cons_of_mem c ha)) rfl

/-- What is left of a number that is read to its end: the rest of its text, between blanks where
these may stand. -/
def Rest : Padded → Text → Prop
  | .within p, s => ∃ l t u : Text, s = l ++ (t ++ u) ∧ (l = [] ∨ p = .start) ∧
      (∀ c ∈ l, isWhitespace c = true) ∧ (∀ c ∈ u, isWhitespace c = true) ∧
      ∃ q, follow Phase.step p t = some q ∧ q.complete = true
  | .behind, s => ∀ c ∈ s, isWhitespace c = true

theorem rest_nil (h : r.complete = true) : r.Rest [] := by
  cases r with
  | within p => exact ⟨[], [], [], rfl, Or.inl rfl, by simp, by simp, p, rfl, h⟩
  | behind => simp [Rest]

theorem rest_of_step {r' : Padded} {c : Char} (hstep : r.step c = some r') (h : r'.Rest s) :
    r.Rest (c :: s) := by
  unfold step at hstep
  split at hstep
  · -- A blank, in front of the number or behind it.
    rename_i hc
    have hcons : ∀ {t : Text}, (∀ a ∈ t, isWhitespace a = true) →
        ∀ a ∈ c :: t, isWhitespace a = true := by
      intro t ht a ha
      rcases List.mem_cons.1 ha with rfl | ha
      · exact hc
      · exact ht a ha
    cases r with
    | behind =>
        cases hstep
        exact hcons h
    | within p =>
        by_cases hp : p = .start
        · subst hp
          cases hstep
          rcases h with ⟨l, t, u, rfl, -, hl, hu, hread⟩
          exact ⟨c :: l, t, u, rfl, Or.inr rfl, hcons hl, hu, hread⟩
        · have hblank : (within p).blank = if p.complete then some behind else none := by
            cases p <;> first | rfl | exact absurd rfl hp
          rw [hblank] at hstep
          split at hstep
          · rename_i hcomplete
            cases hstep
            exact ⟨[], [], c :: s, rfl, Or.inl rfl, by simp, hcons h, p, rfl, hcomplete⟩
          · cases hstep
  · -- A character of the number, behind which it has begun.
    cases r with
    | behind => cases hstep
    | within p =>
        obtain ⟨q, hq, rfl⟩ : ∃ q, p.step c = some q ∧ within q = r' :=
          Option.map_eq_some_iff.1 hstep
        rcases h with ⟨l, t, u, rfl, hl, -, hu, q', hread, hcomplete⟩
        have hnil : l = [] := hl.resolve_right (Phase.step_ne_start hq)
        subst hnil
        refine ⟨[], c :: t, u, rfl, Or.inl rfl, by simp, hu, q', ?_, hcomplete⟩
        rw [follow_cons, hq, Option.bind_some, hread]

end Padded

/-- The texts that are numeric once trimmed are those that are read to the end with blanks allowed
on both sides. -/
theorem exists_numericText_trim_iff (s : Text) :
    (∃ n : NumericText, n.text = trim s) ↔
      ∃ r, follow Padded.step (.within .start) s = some r ∧ r.complete = true := by
  constructor
  · rintro ⟨n, hn⟩
    rcases exists_trimMatches isWhitespace s with ⟨l, u, hs, hl, hu⟩
    rcases Phase.follow_numericText n with ⟨q, hq, hcomplete⟩
    have hblankless : ∀ c ∈ n.text, isWhitespace c = false := fun c hc =>
      isWhitespace_of_isNumberChar (NumericText.isNumberChar_of_mem hc)
    have htext : trimMatches isWhitespace s = n.text := hn.symm
    rw [hs, htext, follow_append, Padded.follow_start_of_blank hl, Option.bind_some, follow_append,
      Padded.follow_within hblankless, hq, Option.map_some, Option.bind_some]
    exact Padded.follow_complete_of_blank hu hcomplete
  · rintro ⟨r, hr, hcomplete⟩
    have hrest : (Padded.within .start).Rest s :=
      of_follow (fun hstep hs => Padded.rest_of_step hstep hs) hr (Padded.rest_nil hcomplete)
    rcases hrest with ⟨l, t, u, rfl, -, hl, hu, hread⟩
    rcases (exists_numericText_iff t).2 hread with ⟨n, rfl⟩
    refine ⟨n, (trimMatches_append hl ?_ hu).symm⟩
    exact fun c hc => isWhitespace_of_isNumberChar (NumericText.isNumberChar_of_mem hc)

end FloatMacro
end RainFloat
