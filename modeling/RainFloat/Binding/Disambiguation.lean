import RainFloat.Binding.ReferenceContract

/-!
# Disambiguation — decimal text against hex text

A string is parsed as a decimal first and as hex only where that fails.  The two languages share
the strings of 64 digits with at most one `e` among them, and nothing else.

* `ambiguous_iff`: the shared strings;
* `string_reading`: outside them a string has one reading, inside them the decimal one comes first.
-/

namespace RainFloat
namespace Binding

open Foundation Reference

variable {contract : Contract} {lib : HexLibrary}

/-- 64 hex digits without a prefix that are a decimal literal as well. -/
def Ambiguous (s : Text) : Prop :=
  s.length = 64 ∧ ∃ d : DigitText,
    s = d.chars ∨ ∃ m, (m = 'e' ∨ m = 'E') ∧ ∃ g : DigitText, s = d.chars ++ m :: g.chars

/-! ## Literals among the hex texts -/

theorem stripHexPrefix_of_isLiteral {s : Text} (h : IsLiteral s) : stripHexPrefix s = s := by
  unfold stripHexPrefix
  split
  · exact absurd h (not_isLiteral_of_hexPrefix _)
  · rfl

theorem Ambiguous.isLiteral {s : Text} (h : Ambiguous s) : IsLiteral s := by
  rcases h.2 with ⟨d, rfl | ⟨m, hm, g, rfl⟩⟩
  · refine ⟨⟨false, d, none, none⟩, ?_⟩
    simp [Literal.text, Literal.mantissaText, Literal.signText]
  · refine ⟨⟨false, d, none, some ⟨m = 'E', .none, g⟩⟩, ?_⟩
    simp [Literal.text, Literal.mantissaText, Literal.signText, Exponent.text, Exponent.marker,
      ExponentSign.text, ite_marker hm]

theorem Ambiguous.isHexNumber {s : Text} (h : Ambiguous s) : ∃ n, hexNumber s = some n := by
  apply exists_hexNumber
  intro c hc
  rcases h.2 with ⟨d, rfl | ⟨m, hm, g, rfl⟩⟩
  · exact hexDigitValue_isSome_of_isDigit (d.isDigit c hc)
  · rcases List.mem_append.1 hc with hc | hc
    · exact hexDigitValue_isSome_of_isDigit (d.isDigit c hc)
    · rcases List.mem_cons.1 hc with rfl | hc
      · rcases hm with rfl | rfl <;> rfl
      · exact hexDigitValue_isSome_of_isDigit (g.isDigit c hc)

/-- Without a minus sign and a point the mantissa of a literal is a run of digits. -/
theorem mantissaText_of_not_mem {l : Literal} (hminus : '-' ∉ l.text) (hpoint : '.' ∉ l.text) :
    l.mantissaText = l.int.chars := by
  have hneg : l.negative = false := by
    cases hn : l.negative with
    | false => rfl
    | true =>
        refine absurd ?_ hminus
        simp [Literal.text, Literal.mantissaText, Literal.signText, hn]
  have hfrac : l.frac = none := by
    cases hf : l.frac with
    | none => rfl
    | some d =>
        refine absurd ?_ hpoint
        simp [Literal.text, Literal.mantissaText, hf]
  simp [Literal.mantissaText, Literal.signText, hneg, hfrac]

/-- Without a sign an exponent is its marker and a run of digits. -/
theorem exponentText_of_not_mem {x : Exponent} (hplus : '+' ∉ x.text) (hminus : '-' ∉ x.text) :
    x.text = x.marker :: x.digits.chars := by
  cases hsign : x.sign with
  | none => simp [Exponent.text, hsign, ExponentSign.text]
  | plus =>
      refine absurd ?_ hplus
      simp [Exponent.text, hsign, ExponentSign.text]
  | minus =>
      refine absurd ?_ hminus
      simp [Exponent.text, hsign, ExponentSign.text]

/-- Of the parts of a literal, hex digits leave no sign and no point. -/
theorem ambiguous_of_hexDigits {l : Literal} (hlen : l.text.length = 64)
    (hdigits : ∀ c ∈ l.text, (hexDigitValue c).isSome = true) : Ambiguous l.text := by
  -- Signs and the point are no hex digits, so they do not occur.
  have hno : ∀ c, hexDigitValue c = none → c ∉ l.text := by
    intro c hc hmem
    have := hdigits c hmem
    rw [hc] at this
    cases this
  have hmantissa := mantissaText_of_not_mem (hno '-' rfl) (hno '.' rfl)
  refine ⟨hlen, l.int, ?_⟩
  cases hx : l.exponent with
  | none =>
      left
      simp [Literal.text, hmantissa, hx]
  | some x =>
      right
      have htext : l.text = l.int.chars ++ x.text := by
        simp [Literal.text, hmantissa, hx]
      have hmem : ∀ c ∈ x.text, c ∈ l.text := by
        intro c hc
        rw [htext]
        exact List.mem_append_right _ hc
      have hexponent := exponentText_of_not_mem (fun h => hno '+' rfl (hmem _ h))
        (fun h => hno '-' rfl (hmem _ h))
      exact ⟨x.marker, x.marker_cases, x.digits, by rw [htext, hexponent]⟩

/-- The strings that both readings accept. -/
theorem ambiguous_iff (hlib : lib.Documented) (s : Text) :
    Ambiguous s ↔ IsLiteral s ∧ ∃ b, Float.fromHex lib s = .ok b := by
  constructor
  · intro h
    refine ⟨h.isLiteral, ?_⟩
    rcases h.isHexNumber with ⟨n, hn⟩
    rcases hexBytes_of_hexNumber hn (by rw [h.1]) with ⟨l, hl, -, hlen⟩
    rw [h.1] at hlen
    refine ⟨⟨l, by omega⟩, ?_⟩
    rw [hlib.fromHex_iff, stripHexPrefix_of_isLiteral h.isLiteral]
    exact hl
  · rintro ⟨hs, b, hb⟩
    rw [hlib.fromHex_iff, stripHexPrefix_of_isLiteral hs] at hb
    rcases hs with ⟨l, rfl⟩
    apply ambiguous_of_hexDigits
    · rw [(hexNumber_of_hexBytes hb).2, b.length_eq]
    · intro c hc
      by_contra h
      have hnone : hexDigitValue c = none := by simpa using h
      rw [hexBytes_eq_none hc hnone] at hb
      cases hb

/-! ## The reading of a string -/

theorem Contract.ParsesExactly.isLiteral_of_parse (hk : contract.ParsesExactly) {s : Text}
    {f : Float} (h : Float.parse contract s = .ok f) : IsLiteral s := by
  by_contra hs
  rcases (hk.parse_malformed s hs).parse_error with ⟨e, he⟩
  rw [he] at h
  cases h

theorem mapError_eq_ok_iff {α ε ε' : Type} {g : ε → ε'} {r : Except ε α} {a : α} :
    r.mapError g = .ok a ↔ r = .ok a := by
  cases r with
  | ok b => simp [Except.mapError]
  | error e => simp [Except.mapError]

/-- A literal the contract refuses is refused by the hex reading as well, which then reports the
string, unless it is ambiguous. -/
theorem parseFloatStringOrHex_of_literal_error (hlib : lib.Documented) {s : Text} {e : FloatError}
    (ha : ¬ Ambiguous s) (hs : IsLiteral s) (h : Float.parse contract s = .error e) :
    parseFloatStringOrHex contract lib s = .error (.invalidHex s) := by
  rw [parseFloatStringOrHex_of_error h]
  rcases Float.fromHex_eq_ok_or_invalidHex lib s with hb | herr
  · exact absurd ((ambiguous_iff hlib s).2 ⟨hs, hb⟩) ha
  · exact herr

/-- Hex text the decimal reading has no claim to is read as its bytes. -/
theorem parseFloatStringOrHex_of_fromHex (hk : contract.ParsesExactly) (hlib : lib.Documented)
    {s : Text} {b : Float} (ha : ¬ Ambiguous s) (h : Float.fromHex lib s = .ok b) :
    parseFloatStringOrHex contract lib s = .ok b := by
  cases hparse : Float.parse contract s with
  | ok f => exact absurd ((ambiguous_iff hlib s).2 ⟨hk.isLiteral_of_parse hparse, b, h⟩) ha
  | error e => rw [parseFloatStringOrHex_of_error hparse, h]

/-- A string that is not ambiguous has at most one reading, its decimal or its hex one, and a
literal is read alike as a JSON string and as a JSON number.  An ambiguous string is read as a
decimal if its value is a Float, else as hex. -/
theorem string_reading (hk : contract.ParsesExactly) (hlib : lib.Documented) (s : Text) :
    (Ambiguous s ↔ IsLiteral s ∧ ∃ b, Float.fromHex lib s = .ok b) ∧
    (∀ f, Float.parse contract s = .ok f →
      IsLiteral s ∧ parseFloatStringOrHex contract lib s = .ok f) ∧
    (¬ Ambiguous s →
      (IsLiteral s → ∀ e, Float.parse contract s = .error e →
        parseFloatStringOrHex contract lib s = .error (.invalidHex s)) ∧
      (IsLiteral s → ∀ f, deserializeFloatFromNumberOrString contract lib (.string s) = .ok f ↔
        deserializeFloatFromNumberOrString contract lib (.number s) = .ok f) ∧
      (∀ b, Float.fromHex lib s = .ok b → parseFloatStringOrHex contract lib s = .ok b)) ∧
    (Ambiguous s →
      (∃ f, Float.parse contract s = .ok f ∧ parseFloatStringOrHex contract lib s = .ok f) ∨
      (∃ e b, Float.parse contract s = .error e ∧ Float.fromHex lib s = .ok b ∧
        parseFloatStringOrHex contract lib s = .ok b)) := by
  refine ⟨ambiguous_iff hlib s, ?_, ?_, ?_⟩
  · intro f hf
    exact ⟨hk.isLiteral_of_parse hf, parseFloatStringOrHex_of_ok hf⟩
  · intro ha
    refine ⟨fun hs e he => parseFloatStringOrHex_of_literal_error hlib ha hs he, ?_,
      fun b hb => parseFloatStringOrHex_of_fromHex hk hlib ha hb⟩
    intro hs f
    -- Of the two JSON readings only the one of strings falls back to hex.
    change (parseFloatStringOrHex contract lib s).mapError SerdeError.custom = .ok f ↔
      (Float.parse contract s).mapError SerdeError.custom = .ok f
    rw [mapError_eq_ok_iff, mapError_eq_ok_iff]
    cases hparse : Float.parse contract s with
    | ok g => rw [parseFloatStringOrHex_of_ok hparse]
    | error e =>
        rw [parseFloatStringOrHex_of_literal_error hlib ha hs hparse]
        exact iff_of_false (by simp) (by simp)
  · intro ha
    cases hparse : Float.parse contract s with
    | ok f => exact Or.inl ⟨f, rfl, parseFloatStringOrHex_of_ok hparse⟩
    | error e =>
        rcases ((ambiguous_iff hlib s).1 ha).2 with ⟨b, hb⟩
        exact Or.inr ⟨e, b, rfl, hb, by rw [parseFloatStringOrHex_of_error hparse, hb]⟩

/-- Prefixed hex text of 32 bytes 0x11 is read as these bytes. -/
theorem string_reading_prefixed :
    parseFloatStringOrHex referenceContract hexLibrary ('0' :: 'x' :: List.replicate 64 '1') =
      .ok ⟨List.replicate 32 17, by decide⟩ :=
  ((string_reading referenceContract_parsesExactly hexLibrary_documented
    ('0' :: 'x' :: List.replicate 64 '1')).2.2.1 (fun h => absurd h.1 (by decide))).2.2 _
    ((hexLibrary_documented.fromHex_iff _ _).2 (by decide +kernel))

/-! ## Two ambiguous strings -/

/-- 62 zeros and `10`. -/
def paddedTen : Literal :=
  ⟨false, (DigitText.ofNat 10).prependZeros 62, none, none⟩

def nines : DigitText :=
  ⟨List.replicate 62 '9', by simp, by simp⟩

/-- `1e` and 62 nines. -/
def hugePower : Literal :=
  ⟨false, DigitText.ofNat 1, none, some ⟨false, .none, nines⟩⟩

theorem literalDec_hugePower_not_mem : (literalDec hugePower).val ∉ Representable := by
  have hdec : literalDec hugePower = ⟨1, 10 ^ 62 - 1⟩ := by decide +kernel
  rw [hdec]
  apply exactFloat_none
  have hstrip : stripTens 1 one_ne_zero (10 ^ 62 - 1) = ⟨1, 10 ^ 62 - 1⟩ := by
    rw [stripTens, dif_neg (by decide)]
  unfold exactFloat
  rw [dif_neg one_ne_zero, hstrip]
  exact if_neg (by decide)

theorem fromHex_paddedTen :
    Float.fromHex hexLibrary paddedTen.text = .ok ⟨List.replicate 31 0 ++ [16], by decide⟩ := by
  rw [hexLibrary_documented.fromHex_iff]
  decide +kernel

/-- The hex text of the Float 16 is read as 10, and a literal beyond every Float is read as hex. -/
theorem ambiguous_strings_misread :
    (referenceContract.ParsesExactly ∧ hexLibrary.Documented) ∧
    ¬ (∀ b, Float.fromHex hexLibrary paddedTen.text = .ok b →
      parseFloatStringOrHex referenceContract hexLibrary paddedTen.text = .ok b) ∧
    ¬ (IsLiteral hugePower.text →
      parseFloatStringOrHex referenceContract hexLibrary hugePower.text =
        Float.parse referenceContract hugePower.text) := by
  refine ⟨⟨referenceContract_parsesExactly, hexLibrary_documented⟩, ?_, ?_⟩
  · intro hclaim
    have hten : literalDec paddedTen = ⟨10, 0⟩ := by decide +kernel
    have hmem : (literalDec paddedTen).val ∈ Representable := by
      rw [hten]
      exact IsFloat.val_mem ⟨by decide, by decide, by decide⟩
    rcases referenceContract_parsesExactly.parse_exact paddedTen hmem with ⟨b, hb, hval⟩
    -- As hex this is the coefficient sixteen, as a decimal it is ten.
    have hread := hclaim _ fromHex_paddedTen
    rw [parseFloatStringOrHex_of_ok hb.parse_eq] at hread
    cases hread
    have hsixteen : fromBytes ⟨List.replicate 31 0 ++ [16], by decide⟩ = ⟨16, 0⟩ := by
      decide +kernel
    rw [hsixteen, hten] at hval
    norm_num [Dec.val] at hval
  · intro hclaim
    rcases (referenceContract_parsesExactly.parse_inexact hugePower
      literalDec_hugePower_not_mem).parse_error with ⟨e, he⟩
    have hambiguous : Ambiguous hugePower.text :=
      ⟨by decide +kernel, DigitText.ofNat 1, Or.inr ⟨'e', Or.inl rfl, nines, by decide +kernel⟩⟩
    rcases ((ambiguous_iff hexLibrary_documented _).1 hambiguous).2 with ⟨b, hb⟩
    -- The decimal reading fails, and instead of its error there are the bytes.
    have hread := hclaim hugePower.isLiteral_text
    rw [parseFloatStringOrHex_of_error he, hb, he] at hread
    cases hread

end Binding
end RainFloat
