import Mathlib.Algebra.Group.Nat.Defs
import Mathlib.Data.List.TakeWhile
import Mathlib.Logic.Basic

/-!
# DecimalText — digit texts and decimal literals

Texts are lists of characters.  A `Literal` is the parse tree of
`-?[0-9]+(\.[0-9]+)?([eE][+-]?[0-9]+)?`: its fields hold the parts, and `Literal.text` puts them
back together.

* `splitOnce_of_append`, `splitOnce_eq_none`: cutting a text at the first character of a kind;
* `scan_text`, `text_scan`: `scan` recognizes exactly the texts of literals, which makes
  `IsLiteral` decidable.
-/

namespace RainFloat
namespace Foundation

/-! ## Cutting texts -/

/-- The text before the first character that satisfies `p`, and the text behind it. -/
def splitOnce (p : Char → Bool) (s : List Char) : Option (List Char × List Char) :=
  match s.dropWhile (fun c => !p c) with
  | [] => none
  | _ :: tail => some (s.takeWhile (fun c => !p c), tail)

theorem splitOnce_of_append {p : Char → Bool} {l r : List Char} {c : Char}
    (hl : ∀ a ∈ l, p a = false) (hc : p c = true) :
    splitOnce p (l ++ c :: r) = some (l, r) := by
  have hl' : ∀ a ∈ l, (!p a) = true := by simpa using hl
  have hdrop : (l ++ c :: r).dropWhile (fun c => !p c) = c :: r := by
    rw [List.dropWhile_append_of_pos hl', List.dropWhile_cons_of_neg (by simp [hc])]
  have htake : (l ++ c :: r).takeWhile (fun c => !p c) = l := by
    rw [List.takeWhile_append_of_pos hl', List.takeWhile_cons_of_neg (by simp [hc]),
      List.append_nil]
  simp only [splitOnce, hdrop, htake]

theorem splitOnce_eq_none {p : Char → Bool} {l : List Char} (hl : ∀ a ∈ l, p a = false) :
    splitOnce p l = none := by
  have hdrop : l.dropWhile (fun c => !p c) = [] := by
    rw [List.dropWhile_eq_nil_iff]
    simpa using hl
  simp only [splitOnce, hdrop]

/-! ## Runs of digits -/

theorem ne_of_isDigit {c d : Char} (hc : c.isDigit = true) (hd : d.isDigit = false) : c ≠ d := by
  rintro rfl
  simp [hc] at hd

/-- A nonempty run of digits. -/
structure DigitText where
  chars : List Char
  nonempty : chars ≠ []
  isDigit : ∀ c ∈ chars, c.isDigit = true

namespace DigitText

/-- The number a run of digits is the decimal text of. -/
def value (d : DigitText) : Nat :=
  Nat.ofDigitChars 10 d.chars 0

/-- The decimal text of a number. -/
def ofNat (n : Nat) : DigitText :=
  ⟨Nat.toDigits 10 n, Nat.toDigits_ne_nil,
    fun _ hc => Nat.isDigit_of_mem_toDigits (by decide) (by decide) hc⟩

@[simp] theorem value_ofNat (n : Nat) : (ofNat n).value = n :=
  Nat.ofDigitChars_ten_toDigits

@[simp] theorem chars_ofNat (n : Nat) : (ofNat n).chars = Nat.toDigits 10 n :=
  rfl

/-- The first `k` digits. -/
def take (d : DigitText) (k : Nat) (hk : 0 < k) : DigitText where
  chars := d.chars.take k
  nonempty := by simp [d.nonempty, hk.ne']
  isDigit := fun c hc => d.isDigit c (List.mem_of_mem_take hc)

/-- The digits after the first `k`. -/
def drop (d : DigitText) (k : Nat) (hk : k < d.chars.length) : DigitText where
  chars := d.chars.drop k
  nonempty := by simpa using hk
  isDigit := fun c hc => d.isDigit c (List.mem_of_mem_drop hc)

theorem isDigit_of_mem_zeros {k : Nat} {c : Char} (hc : c ∈ List.replicate k '0') :
    c.isDigit = true := by
  rw [List.eq_of_mem_replicate hc]
  rfl

/-- Zeros put behind the digits. -/
def appendZeros (d : DigitText) (k : Nat) : DigitText where
  chars := d.chars ++ List.replicate k '0'
  nonempty := by simp [d.nonempty]
  isDigit := by
    intro c hc
    rcases List.mem_append.1 hc with h | h
    · exact d.isDigit c h
    · exact isDigit_of_mem_zeros h

/-- Zeros put in front of the digits. -/
def prependZeros (d : DigitText) (k : Nat) : DigitText where
  chars := List.replicate k '0' ++ d.chars
  nonempty := by simp [d.nonempty]
  isDigit := by
    intro c hc
    rcases List.mem_append.1 hc with h | h
    · exact isDigit_of_mem_zeros h
    · exact d.isDigit c h

theorem value_appendZeros (d : DigitText) (k : Nat) :
    (d.appendZeros k).value = 10 ^ k * d.value := by
  simp [value, appendZeros, Nat.ofDigitChars_append, Nat.ofDigitChars_replicate_zero]

theorem value_prependZeros (d : DigitText) (k : Nat) : (d.prependZeros k).value = d.value := by
  simp [value, prependZeros, Nat.ofDigitChars_append, Nat.ofDigitChars_replicate_zero]

/-- A run of digits starts with a digit. -/
theorem exists_cons (d : DigitText) : ∃ c l, d.chars = c :: l ∧ c.isDigit = true := by
  cases h : d.chars with
  | nil => exact absurd h d.nonempty
  | cons c l => exact ⟨c, l, rfl, d.isDigit c (by simp [h])⟩

theorem dropWhile_append (d : DigitText) (r : List Char) {c : Char} (hc : c.isDigit = false) :
    (d.chars ++ r).dropWhile (fun a => decide (a = c)) = d.chars ++ r := by
  rcases d.exists_cons with ⟨a, l, hal, ha⟩
  have hne : a ≠ c := ne_of_isDigit ha hc
  simp [hal, hne]

end DigitText

/-! ## Literals -/

/-- The sign in front of the digits of an exponent. -/
inductive ExponentSign
  | none
  | plus
  | minus
  deriving DecidableEq, Repr

def ExponentSign.text : ExponentSign → List Char
  | .none => []
  | .plus => ['+']
  | .minus => ['-']

/-- `[eE][+-]?[0-9]+` -/
structure Exponent where
  upper : Bool
  sign : ExponentSign
  digits : DigitText

def Exponent.marker (x : Exponent) : Char :=
  if x.upper then 'E' else 'e'

theorem Exponent.marker_cases (x : Exponent) : x.marker = 'e' ∨ x.marker = 'E' := by
  unfold marker
  split <;> simp

/-- Of a marker only its case is kept. -/
theorem ite_marker {c : Char} (h : c = 'e' ∨ c = 'E') : (if c = 'E' then 'E' else 'e') = c := by
  rcases h with rfl | rfl <;> rfl

def Exponent.text (x : Exponent) : List Char :=
  x.marker :: (x.sign.text ++ x.digits.chars)

def Exponent.value (x : Exponent) : Int :=
  if x.sign = .minus then -(x.digits.value : Int) else x.digits.value

/-- `-?[0-9]+(\.[0-9]+)?([eE][+-]?[0-9]+)?` -/
structure Literal where
  negative : Bool
  int : DigitText
  frac : Option DigitText
  exponent : Option Exponent

namespace Literal

def signText (l : Literal) : List Char :=
  if l.negative then ['-'] else []

/-- The digits behind the point, none when there is no point. -/
def fracChars (l : Literal) : List Char :=
  l.frac.elim [] DigitText.chars

def mantissaText (l : Literal) : List Char :=
  l.signText ++ (l.int.chars ++ l.frac.elim [] (fun d => '.' :: d.chars))

def text (l : Literal) : List Char :=
  l.mantissaText ++ l.exponent.elim [] Exponent.text

theorem text_eq (l : Literal) :
    l.text = l.signText ++ (l.int.chars ++
      (l.frac.elim [] (fun d => '.' :: d.chars) ++ l.exponent.elim [] Exponent.text)) := by
  simp [text, mantissaText]

theorem isDigit_of_mem_fracChars {l : Literal} {c : Char} (hc : c ∈ l.fracChars) :
    c.isDigit = true := by
  cases h : l.frac with
  | none => simp [fracChars, h] at hc
  | some d => exact d.isDigit c (by simpa [fracChars, h] using hc)

/-- All digits of the mantissa. -/
def digits (l : Literal) : DigitText where
  chars := l.int.chars ++ l.fracChars
  nonempty := by simp [l.int.nonempty]
  isDigit := by
    intro c hc
    rcases List.mem_append.1 hc with h | h
    · exact l.int.isDigit c h
    · exact isDigit_of_mem_fracChars h

/-- The coefficient of the value `coefficient × 10^(exponentValue - scale)` of a literal. -/
def coefficient (l : Literal) : Int :=
  if l.negative then -(l.digits.value : Int) else l.digits.value

def scale (l : Literal) : Nat :=
  l.fracChars.length

def exponentValue (l : Literal) : Int :=
  l.exponent.elim 0 Exponent.value

end Literal

/-- `s` is a decimal literal. -/
def IsLiteral (s : List Char) : Prop :=
  ∃ l : Literal, l.text = s

theorem Literal.isLiteral_text (l : Literal) : IsLiteral l.text :=
  ⟨l, rfl⟩

/-! ## Recognizing literals -/

/-- The run of digits a text starts with, and the rest. -/
def scanDigits (s : List Char) : Option (DigitText × List Char) :=
  if h : s.takeWhile Char.isDigit = [] then none
  else some (⟨s.takeWhile Char.isDigit, h, fun _ hc => List.mem_takeWhile_imp hc⟩,
    s.dropWhile Char.isDigit)

def scanSign (s : List Char) : ExponentSign × List Char :=
  match s with
  | '+' :: t => (.plus, t)
  | '-' :: t => (.minus, t)
  | t => (.none, t)

def scanFrac (s : List Char) : Option (Option DigitText × List Char) :=
  match s with
  | '.' :: t => (scanDigits t).map fun r => (some r.1, r.2)
  | t => some (none, t)

/-- An exponent up to the end of the text. -/
def scanExponent (s : List Char) : Option (Option Exponent) :=
  match s with
  | [] => some none
  | c :: t =>
    if c = 'e' ∨ c = 'E' then
      match scanDigits (scanSign t).2 with
      | some (d, []) => some (some ⟨c = 'E', (scanSign t).1, d⟩)
      | _ => none
    else none

def scanNegative (s : List Char) : Bool × List Char :=
  match s with
  | '-' :: t => (true, t)
  | t => (false, t)

/-- The literal a text is, if it is one. -/
def scan (s : List Char) : Option Literal := do
  let (int, s1) ← scanDigits (scanNegative s).2
  let (frac, s2) ← scanFrac s1
  let exponent ← scanExponent s2
  pure ⟨(scanNegative s).1, int, frac, exponent⟩

/-- A text that does not start with a digit. -/
def NoDigitHead (s : List Char) : Prop :=
  ∀ c t, s = c :: t → c.isDigit = false

theorem noDigitHead_cons {c : Char} {t : List Char} (h : c.isDigit = false) :
    NoDigitHead (c :: t) := by
  rintro a u ⟨⟩
  exact h

theorem scanDigits_append (d : DigitText) {r : List Char} (hr : NoDigitHead r) :
    scanDigits (d.chars ++ r) = some (d, r) := by
  have htake : (d.chars ++ r).takeWhile Char.isDigit = d.chars := by
    rw [List.takeWhile_append_of_pos d.isDigit]
    cases r with
    | nil => simp
    | cons c t => simp [hr c t rfl]
  have hdrop : (d.chars ++ r).dropWhile Char.isDigit = r := by
    rw [List.dropWhile_append_of_pos d.isDigit]
    cases r with
    | nil => rfl
    | cons c t => simp [hr c t rfl]
  simp only [scanDigits, htake, hdrop, d.nonempty, dif_neg, not_false_eq_true]

theorem scanDigits_sound {s r : List Char} {d : DigitText} (h : scanDigits s = some (d, r)) :
    d.chars ++ r = s := by
  unfold scanDigits at h
  split at h
  · cases h
  · cases h
    exact List.takeWhile_append_dropWhile

theorem scanSign_append (x : ExponentSign) (d : DigitText) :
    scanSign (x.text ++ d.chars) = (x, d.chars) := by
  cases x with
  | plus => rfl
  | minus => rfl
  | none =>
      rcases d.exists_cons with ⟨c, t, hc, hdigit⟩
      have h1 : c ≠ '+' := ne_of_isDigit hdigit rfl
      have h2 : c ≠ '-' := ne_of_isDigit hdigit rfl
      simp only [ExponentSign.text, List.nil_append, hc]
      unfold scanSign
      split
      · rename_i heq
        cases heq
        exact absurd rfl h1
      · rename_i heq
        cases heq
        exact absurd rfl h2
      · rfl

theorem scanSign_sound (s : List Char) : (scanSign s).1.text ++ (scanSign s).2 = s := by
  unfold scanSign
  split <;> rfl

theorem Exponent.isDigit_marker (x : Exponent) : x.marker.isDigit = false := by
  rcases x.marker_cases with h | h <;> rw [h] <;> rfl

theorem scanExponent_text (x : Option Exponent) :
    scanExponent (x.elim [] Exponent.text) = some x := by
  cases x with
  | none => rfl
  | some x =>
      have hmarker := x.marker_cases
      have hupper : decide (x.marker = 'E') = x.upper := by
        unfold Exponent.marker
        split <;> simp_all
      have hdigits : scanDigits x.digits.chars = some (x.digits, []) := by
        simpa using scanDigits_append x.digits (r := []) (by rintro c t ⟨⟩)
      simp only [Option.elim_some, Exponent.text, scanExponent, hmarker, if_true, scanSign_append,
        hdigits, hupper]

theorem scanExponent_sound {s : List Char} {x : Option Exponent} (h : scanExponent s = some x) :
    x.elim [] Exponent.text = s := by
  cases s with
  | nil =>
      cases h
      rfl
  | cons c t =>
      simp only [scanExponent] at h
      split at h
      · rename_i hc
        split at h
        · rename_i d heq
          cases h
          have hdigits := scanDigits_sound heq
          have hsign := scanSign_sound t
          rw [List.append_nil] at hdigits
          simp only [Option.elim_some, Exponent.text, Exponent.marker, decide_eq_true_eq,
            ite_marker hc, hdigits, hsign]
        · cases h
      · cases h

theorem noDigitHead_exponent (x : Option Exponent) : NoDigitHead (x.elim [] Exponent.text) := by
  cases x with
  | none =>
      rintro c t ⟨⟩
  | some x => exact noDigitHead_cons x.isDigit_marker

theorem scanFrac_append (f : Option DigitText) (x : Option Exponent) :
    scanFrac (f.elim [] (fun d => '.' :: d.chars) ++ x.elim [] Exponent.text) =
      some (f, x.elim [] Exponent.text) := by
  cases f with
  | some d =>
      simp [scanFrac, scanDigits_append d (noDigitHead_exponent x)]
  | none =>
      cases x with
      | none => rfl
      | some x =>
          -- Without a fraction the text goes on with the marker, which is no point.
          have hdot : x.marker ≠ '.' := by
            rcases x.marker_cases with h | h <;> simp [h]
          simp only [Option.elim_none, Option.elim_some, List.nil_append, Exponent.text]
          unfold scanFrac
          split
          · rename_i heq
            exact absurd (List.cons.inj heq).1 hdot
          · rfl

theorem scanFrac_sound {s r : List Char} {f : Option DigitText} (h : scanFrac s = some (f, r)) :
    f.elim [] (fun d => '.' :: d.chars) ++ r = s := by
  unfold scanFrac at h
  split at h
  · rename_i t
    cases hd : scanDigits t with
    | none => simp [hd] at h
    | some p =>
        rw [hd] at h
        cases h
        simp [scanDigits_sound hd]
  · cases h
    rfl

theorem noDigitHead_frac (f : Option DigitText) {r : List Char} (hr : NoDigitHead r) :
    NoDigitHead (f.elim [] (fun d => '.' :: d.chars) ++ r) := by
  cases f with
  | none => exact hr
  | some d => exact noDigitHead_cons rfl

theorem scanNegative_text (l : Literal) (r : List Char) :
    scanNegative (l.signText ++ (l.int.chars ++ r)) = (l.negative, l.int.chars ++ r) := by
  cases h : l.negative with
  | true => simp [Literal.signText, h, scanNegative]
  | false =>
      rcases l.int.exists_cons with ⟨c, t, hc, hdigit⟩
      have hne : c ≠ '-' := ne_of_isDigit hdigit rfl
      simp only [Literal.signText, h, hc, List.nil_append, List.cons_append, Bool.false_eq_true,
        if_false]
      unfold scanNegative
      split
      · rename_i heq
        cases heq
        exact absurd rfl hne
      · rfl

theorem scan_text (l : Literal) : scan l.text = some l := by
  -- No part is followed by a digit, so each scan stops where its part ends.
  have hint := scanDigits_append l.int (noDigitHead_frac l.frac (noDigitHead_exponent l.exponent))
  rw [l.text_eq, scan, scanNegative_text]
  simp [hint, scanFrac_append, scanExponent_text]

theorem text_scan {s : List Char} {l : Literal} (h : scan s = some l) : l.text = s := by
  simp only [scan, Option.bind_eq_bind, Option.bind_eq_some_iff, Option.pure_def,
    Option.some.injEq] at h
  rcases h with ⟨⟨int, s1⟩, hint, ⟨frac, s2⟩, hfrac, exponent, hexp, rfl⟩
  have h1 := scanDigits_sound hint
  have h2 := scanFrac_sound hfrac
  have h3 := scanExponent_sound hexp
  have hsign : (if (scanNegative s).1 then ['-'] else []) ++ (scanNegative s).2 = s := by
    unfold scanNegative
    split <;> rfl
  simp only [Literal.text, Literal.mantissaText, Literal.signText, List.append_assoc, h3, h2, h1,
    hsign]

theorem isLiteral_iff {s : List Char} : IsLiteral s ↔ (scan s).isSome = true := by
  constructor
  · rintro ⟨l, rfl⟩
    rw [scan_text]
    rfl
  · intro h
    rcases Option.isSome_iff_exists.1 h with ⟨l, hl⟩
    exact ⟨l, text_scan hl⟩

instance (s : List Char) : Decidable (IsLiteral s) :=
  decidable_of_iff _ isLiteral_iff.symm

example : IsLiteral "-12.50e+7".toList := by
  decide

end Foundation
end RainFloat
