import RainFloat.Reference.Parse
import RainFloat.Reference.Unary

/-!
# Reading — what the reference makes of a literal

* `literalValue_text`: reading a literal yields its coefficient and exponent, unless the exponent
  leaves the `i64` range;
* `meets_parseRef_text`: parsing is reading followed by packing, and only lossless values pass;
* `Renders.reads`: a literal of a Float value is parsed to that value.
-/

namespace RainFloat
namespace Reference

open Foundation Dec

/-! ## Numbers from runs of digits -/

theorem stripPrefix_digits (d : DigitText) {p : Char} (hp : p.isDigit = false) :
    stripPrefix p d.chars = none := by
  rcases d.exists_cons with ⟨c, t, hct, hc⟩
  have hne : c ≠ p := ne_of_isDigit hc hp
  simp [hct, stripPrefix, hne]

theorem filter_underscore (d : DigitText) : d.chars.filter (· ≠ '_') = d.chars := by
  rw [List.filter_eq_self]
  intro c hc
  have : c ≠ '_' := ne_of_isDigit (d.isDigit c hc) rfl
  simpa using this

theorem parseBigUint_digits (d : DigitText) : parseBigUint d.chars = some d.value := by
  have hhead : ¬ (d.chars = [] ∨ d.chars.head? = some '_') := by
    rcases d.exists_cons with ⟨c, t, hct, hc⟩
    have hunder : c ≠ '_' := ne_of_isDigit hc rfl
    simp [hct, hunder]
  have hall : d.chars.all Char.isDigit = true := List.all_eq_true.2 d.isDigit
  unfold parseBigUint
  simp only [stripPrefix_digits d (p := '+') rfl, Option.filter_none, Option.getD_none, hhead,
    if_false, filter_underscore, hall, if_true]
  rfl

theorem parseBigInt_digits (d : DigitText) : parseBigInt d.chars = some (d.value : ℤ) := by
  simp only [parseBigInt, stripPrefix_digits d (p := '-') rfl, parseBigUint_digits]
  rfl

theorem splitSign_digits (negative : Bool) (d : DigitText) :
    splitSign ((if negative then ['-'] else []) ++ d.chars) = (negative, d.chars) := by
  cases negative with
  | true => rfl
  | false =>
      simp [splitSign, stripPrefix_digits d (p := '-') rfl, stripPrefix_digits d (p := '+') rfl]

/-- An optional minus sign in front of digits, as `i64::from_str` reads it. -/
theorem parseI64_digits (negative : Bool) (d : DigitText) :
    parseI64 ((if negative then ['-'] else []) ++ d.chars) =
      let z : ℤ := if negative then -(d.value : ℤ) else d.value
      if I64 z then some z else none := by
  have hdigits : d.chars ≠ [] ∧ d.chars.all Char.isDigit = true :=
    ⟨d.nonempty, List.all_eq_true.2 d.isDigit⟩
  simp only [parseI64, splitSign_digits]
  rw [if_pos hdigits]
  rfl

/-! ## Reading a literal -/

theorem mantissaText_no_marker {l : Literal} {c : Char} (hc : c ∈ l.mantissaText) :
    (c = 'e' || c = 'E') = false := by
  have hdigit : ∀ a : Char, a.isDigit = true → (a = 'e' || a = 'E') = false := by
    intro a ha
    have h1 : a ≠ 'e' := ne_of_isDigit ha rfl
    have h2 : a ≠ 'E' := ne_of_isDigit ha rfl
    simp [h1, h2]
  simp only [Literal.mantissaText, List.mem_append] at hc
  rcases hc with hc | hc | hc
  · unfold Literal.signText at hc
    split at hc
    · rw [List.mem_singleton.1 hc]
      rfl
    · cases hc
  · exact hdigit c (l.int.isDigit c hc)
  · cases hf : l.frac with
    | none => simp [hf] at hc
    | some d =>
        rw [hf, Option.elim_some, List.mem_cons] at hc
        rcases hc with rfl | hc
        · rfl
        · exact hdigit c (d.isDigit c hc)

theorem Exponent.dropWhile_plus (x : Exponent) :
    (x.sign.text ++ x.digits.chars).dropWhile (fun c => decide (c = '+')) =
      (if decide (x.sign = .minus) then ['-'] else []) ++ x.digits.chars := by
  have hdigits := x.digits.dropWhile_append [] (c := '+') rfl
  rw [List.append_nil] at hdigits
  cases x.sign with
  | none => simpa [ExponentSign.text] using hdigits
  | plus => simpa [ExponentSign.text] using hdigits
  | minus => simp [ExponentSign.text]

/-- The exponent of a literal is read if it is an `i64`. -/
theorem splitExponent_text (l : Literal) :
    splitExponent l.text =
      if I64 l.exponentValue then .ok (l.mantissaText, l.exponentValue) else .error .unwrap := by
  unfold splitExponent
  cases hx : l.exponent with
  | none =>
      have htext : l.text = l.mantissaText := by simp [Literal.text, hx]
      rw [htext, splitOnce_eq_none fun c hc => mantissaText_no_marker hc]
      simp only [Literal.exponentValue, hx, Option.elim_none]
      rfl
  | some x =>
      have htext : l.text = l.mantissaText ++ x.marker :: (x.sign.text ++ x.digits.chars) := by
        simp [Literal.text, hx, Exponent.text]
      have hmarker : (x.marker = 'e' || x.marker = 'E') = true := by
        simpa using x.marker_cases
      have hvalue : l.exponentValue = x.value := by simp [Literal.exponentValue, hx]
      rw [htext, splitOnce_of_append (fun c hc => mantissaText_no_marker hc) hmarker, hvalue]
      -- Of the signs only the plus is dropped before `from_str` sees the exponent.
      have hread :
          parseI64 ((x.sign.text ++ x.digits.chars).dropWhile (fun c => decide (c = '+'))) =
            if I64 x.value then some x.value else none := by
        rw [Exponent.dropWhile_plus, parseI64_digits]
        by_cases hminus : x.sign = .minus <;> simp [Exponent.value, hminus]
      simp only [hread]
      split <;> rfl

theorem splitPoint_mantissaText (l : Literal) :
    splitPoint l.mantissaText = (l.signText ++ l.int.chars, l.fracChars) := by
  -- No point in front of the one that separates the fraction.
  have hno : ∀ c ∈ l.signText ++ l.int.chars, decide (c = '.') = false := by
    intro c hc
    rcases List.mem_append.1 hc with hc | hc
    · unfold Literal.signText at hc
      split at hc
      · rw [List.mem_singleton.1 hc]
        rfl
      · cases hc
    · have : c ≠ '.' := ne_of_isDigit (l.int.isDigit c hc) rfl
      simpa using this
  unfold splitPoint
  cases hf : l.frac with
  | none =>
      have htext : l.mantissaText = l.signText ++ l.int.chars := by simp [Literal.mantissaText, hf]
      rw [htext, splitOnce_eq_none hno]
      simp [Literal.fracChars, hf]
  | some d =>
      have htext : l.mantissaText = (l.signText ++ l.int.chars) ++ '.' :: d.chars := by
        simp [Literal.mantissaText, hf]
      rw [htext, splitOnce_of_append hno rfl]
      simp [Literal.fracChars, hf]

/-- Reading a literal yields its coefficient and its exponent; what can go wrong is an exponent
outside the `i64` range. -/
theorem literalValue_text (l : Literal) :
    literalValue l.text =
      if I64 l.exponentValue then
        (do let e ← i64 (l.exponentValue - l.scale)
            pure ⟨l.coefficient, e⟩)
      else .error .unwrap := by
  have hdrop : (l.signText ++ l.int.chars).dropWhile (fun c => decide (c = '-')) = l.int.chars := by
    have hint := l.int.dropWhile_append [] (c := '-') rfl
    rw [List.append_nil] at hint
    unfold Literal.signText
    split <;> simpa using hint
  -- A digit is no sign, so the first character tells whether there is one.
  have hhead : (l.signText ++ l.int.chars).head? = some '-' ↔ l.negative = true := by
    rcases l.int.exists_cons with ⟨c, t, hct, hc⟩
    have hne : c ≠ '-' := ne_of_isDigit hc rfl
    unfold Literal.signText
    split <;> simp_all
  have hdigits : parseBigInt (l.int.chars ++ l.fracChars) = some (l.digits.value : ℤ) :=
    parseBigInt_digits l.digits
  unfold literalValue
  rw [splitExponent_text]
  split
  · change (do
      let n ← unwrap (parseBigInt ((splitPoint l.mantissaText).1.dropWhile (· = '-') ++
        (splitPoint l.mantissaText).2))
      let c := if (splitPoint l.mantissaText).1.head? = some '-' then -n else n
      let e ← i64 (l.exponentValue - (splitPoint l.mantissaText).2.length)
      pure (⟨c, e⟩ : Dec)) = _
    simp only [splitPoint_mantissaText, hdrop, hdigits, hhead]
    rfl
  · rfl

/-! ## The decimal a literal denotes -/

/-- The decimal a literal denotes. -/
def literalDec (l : Literal) : Dec :=
  ⟨l.coefficient, l.exponentValue - l.scale⟩

/-- Everything about a literal is in reach of the `i64` arithmetic of reading and packing it. -/
def ReadSafe (l : Literal) : Prop :=
  I64 l.exponentValue ∧ PackSafe (literalDec l)

theorem literalValue_of_readSafe {l : Literal} (h : ReadSafe l) :
    literalValue l.text = .ok (literalDec l) := by
  have he := h.2.1
  have he' := h.2.2.1
  dsimp only [literalDec] at he he'
  have hi64 : I64 (l.exponentValue - l.scale) := ⟨by omega, by omega⟩
  rw [literalValue_text, if_pos h.1, i64, if_pos hi64]
  rfl

/-- The outcome of `parseRef` for a literal denoting `q`. -/
def ParsesTo (q : ℚ) : ParseRef → Prop
  | .value v => IsFloat v ∧ v.val = q
  | .selector s =>
      q ∉ Representable ∧
        (s = "ParseDecimalPrecisionLoss(uint256)" ∨ s = "ExponentOverflow(int256,int256)")

section Specs

variable {T : Panic → Prop}

/-- A value of a packing is lossless or it is not representable. -/
theorem meets_parseRef_text {l : Literal} (h : T .unwrap ∧ T .overflow ∨ ReadSafe l) :
    Meets T (parseRef l.text) (ParsesTo (literalDec l).val) := by
  -- Reading stops only for an exponent that is no `i64`, which a safe literal does not have.
  have hread : Meets T (literalValue l.text) (· = literalDec l) := by
    rw [literalValue_text]
    rcases h with ⟨hu, ho⟩ | hs
    · split
      · exact (meets_i64 (Or.inl ho)).bind_eq rfl
      · exact hu
    · rw [← literalValue_text, literalValue_of_readSafe hs]
      rfl
  refine hread.bind_eq ?_
  refine (meets_pack (h.imp And.right And.right)).bind ?_
  intro p hp
  cases p with
  | value v lossless =>
      rcases hp with ⟨_, _, h3, h4, h5⟩
      cases lossless with
      | true => exact ⟨h3, h5.1 rfl⟩
      | false =>
          refine ⟨fun hmem => ?_, Or.inl rfl⟩
          exact absurd (h5.2 (h4.eq_of_mem hmem)) (by simp)
  | underflow =>
      refine ⟨fun hmem => ?_, Or.inl rfl⟩
      exact absurd (smallest_le hmem hp.2.1) hp.2.2.not_ge
  | overflow =>
      -- A representable value is its own truncation and within the extreme Floats.
      refine ⟨fun hmem => ?_, Or.inr rfl⟩
      have hb := mem_representable_bounds hmem
      have hu := TruncatesTo.of_mem (representable_subset hmem)
      rcases (beyondExtremes_iff hu).1 hp with hlt | hlt
      · exact absurd hb.2 hlt.not_ge
      · exact absurd hb.1 hlt.not_ge

end Specs

/-- `l` is a literal of the value of `x`. -/
structure Renders (x : Dec) (l : Literal) : Prop where
  val : (literalDec l).val = x.val
  safe : ReadSafe l

/-- A literal of a Float value is read as that value and parsed to it. -/
theorem Renders.reads {x : Dec} {l : Literal} (h : Renders x l) (hx : IsFloat x) :
    literalValue l.text = .ok (literalDec l) ∧
      ∃ v, parseRef l.text = .ok (.value v) ∧ IsFloat v ∧ v.val = x.val := by
  refine ⟨literalValue_of_readSafe h.safe, ?_⟩
  rcases (meets_parseRef_text (Or.inr h.safe)).returns with ⟨p, hp, hspec⟩
  rw [h.val] at hspec
  match p, hspec with
  | .value v, ⟨hv, hval⟩ => exact ⟨v, hp, hv, hval⟩
  | .selector _, ⟨hnot, _⟩ => exact absurd hx.val_mem hnot

/-- Two renderings with one text are of the same value. -/
theorem Renders.val_eq {x y : Dec} {l m : Literal} (h : Renders x l) (h' : Renders y m)
    (htext : l.text = m.text) : x.val = y.val := by
  have h1 := literalValue_of_readSafe h.safe
  rw [htext, literalValue_of_readSafe h'.safe] at h1
  rw [← h.val, ← h'.val, Except.ok.inj h1]

end Reference
end RainFloat
