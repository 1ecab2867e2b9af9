import RainFloat.Reference.Reading

/-!
# Rendering — both text forms are exact and canonical

`normalized` strips the trailing zeros of the coefficient, and both renderings are literals built
from the stripped decimal alone.

* `formatScientific_eq`, `formatPlain_eq`: the texts are those of `scientificLiteral` and
  `plainLiteral`;
* `renders_scientificLiteral`, `renders_plainLiteral`: these literals denote the value formatted.
-/

namespace RainFloat
namespace Reference

open Foundation Dec

/-! ## Stripped decimals -/

/-- `n` is the nonzero decimal `x` without the trailing zeros of its coefficient. -/
structure Stripped (x n : Dec) : Prop where
  normalized : x.normalized = .ok n
  val : n.val = x.val
  notDvd : ¬ (10 : ℤ) ∣ n.c
  zeros : ∃ k : ℕ, k ≤ 67 ∧ x.c = n.c * pow10 k ∧ n.e = x.e + k

theorem Stripped.ne_zero {x n : Dec} (h : Stripped x n) : n.c ≠ 0 := by
  intro h0
  exact h.notDvd (h0 ▸ dvd_zero _)

theorem Stripped.source_ne_zero {x n : Dec} (h : Stripped x n) : x.c ≠ 0 := by
  intro h0
  have hval := h.val
  rw [val_eq_zero_iff.2 h0, val_eq_zero_iff] at hval
  exact h.ne_zero hval

theorem IsFloat.exists_stripped {x : Dec} (hx : IsFloat x) (h0 : x.c ≠ 0) :
    ∃ n, Stripped x n := by
  rcases (meets_normalized (Or.inr hx.i64Safe)).returns with ⟨n, hn, hnormal, hval, k, hk, he⟩
  have hn0 : n.c ≠ 0 := by
    intro hc
    rw [hc, zero_mul] at hk
    exact h0 hk
  have hdvd : ¬ (10 : ℤ) ∣ n.c := by
    rcases hnormal with rfl | h
    · exact absurd rfl hn0
    · exact h
  -- The zeros stripped are digits of the coefficient.
  have hlt : 10 ^ k < 10 ^ 68 := by
    have hx68 := (natAbs_lt_pow_digits x.c).trans_le
      (Nat.pow_le_pow_right (by norm_num : 0 < 10) hx.digits_le)
    rw [hk, Int.natAbs_mul] at hx68
    have h10 : (pow10 k).natAbs = 10 ^ k := by simp [pow10, Int.natAbs_pow]
    have hpos := Int.natAbs_pos.2 hn0
    rw [h10] at hx68
    nlinarith [pow_pos (by norm_num : (0 : ℕ) < 10) k]
  have hk68 := (Nat.pow_lt_pow_iff_right (by norm_num : 1 < 10)).1 hlt
  exact ⟨n, hn, hval, hdvd, k, by omega, hk, he h0⟩

theorem Stripped.bounds {x n : Dec} (h : Stripped x n) (hx : IsFloat x) :
    -2147483648 ≤ n.e ∧ n.e ≤ 2147483714 ∧ digits n.c ≤ 68 := by
  rcases h.zeros with ⟨k, hk, hc, he⟩
  have hb := hx.isOperand.bounds
  have hle : n.c.natAbs ≤ x.c.natAbs := by
    rw [hc, Int.natAbs_mul]
    exact Nat.le_mul_of_pos_right _ (Int.natAbs_pos.2 (pow10_pos k).ne')
  have hd : digits n.c ≤ 68 := digits_le (hle.trans_lt ((natAbs_lt_pow_digits x.c).trans_le
    (Nat.pow_le_pow_right (by norm_num) hx.digits_le)))
  omega

/-- Equal values have the same stripped decimal. -/
theorem Stripped.unique {x y n m : Dec} (h : Stripped x n) (h' : Stripped y m)
    (hv : x.val = y.val) : n = m :=
  IsNormal.unique (Or.inr h.notDvd) (Or.inr h'.notDvd) (by rw [h.val, h'.val, hv])

/-! ## The literals -/

/-- The decimal text of the magnitude of a coefficient. -/
def magnitudeText (c : ℤ) : DigitText :=
  DigitText.ofNat c.natAbs

theorem intText_abs (c : ℤ) : intText |c| = (magnitudeText c).chars := by
  simp [intText, magnitudeText, Int.natAbs_abs]

theorem length_magnitudeText {c : ℤ} (hc : c ≠ 0) : (magnitudeText c).chars.length = digits c := by
  simp [magnitudeText, digits, hc]

def zeroLiteral : Literal :=
  ⟨false, ⟨['0'], by simp, by simp⟩, none, none⟩

/-- The exponent part of the scientific form, left out when the exponent is zero. -/
def exponentPart (display : ℤ) : Option Exponent :=
  if display ≠ 0 then
    some ⟨false, if display < 0 then .minus else .none, magnitudeText display⟩
  else
    none

/-- The display exponent of a stripped decimal: that of its first digit. -/
def displayExponent (n : Dec) : ℤ :=
  n.e + digits n.c - 1

def scientificLiteral (n : Dec) : Literal where
  negative := n.isNegative
  int := (magnitudeText n.c).take 1 one_pos
  frac :=
    if h : 1 < (magnitudeText n.c).chars.length then some ((magnitudeText n.c).drop 1 h)
    else none
  exponent := exponentPart (displayExponent n)

theorem elim_exponentPart_text (display : ℤ) :
    (exponentPart display).elim [] Exponent.text =
      if display ≠ 0 then 'e' :: intText display else [] := by
  unfold exponentPart
  by_cases h : display = 0
  · simp [h]
  · by_cases hneg : display < 0 <;>
      simp [h, hneg, Exponent.text, Exponent.marker, ExponentSign.text, intText, magnitudeText]

theorem elim_exponentPart_value (display : ℤ) :
    (exponentPart display).elim 0 Exponent.value = display := by
  unfold exponentPart
  by_cases h : display = 0
  · simp [h]
  · by_cases hneg : display < 0
    · simp [h, hneg, Exponent.value, magnitudeText, abs_of_neg hneg]
    · simp [h, hneg, Exponent.value, magnitudeText, abs_of_nonneg (not_lt.1 hneg)]

/-- The scientific form puts the point behind the first digit. -/
theorem scientificLiteral_chars (n : Dec) :
    (scientificLiteral n).int.chars ++ (scientificLiteral n).fracChars =
      (magnitudeText n.c).chars := by
  have h1 : (scientificLiteral n).fracChars = (magnitudeText n.c).chars.drop 1 := by
    unfold Literal.fracChars scientificLiteral
    dsimp only
    split
    · rfl
    · rename_i hlen
      simpa using (List.drop_eq_nil_of_le (not_lt.1 hlen)).symm
  rw [h1]
  exact List.take_append_drop 1 _

theorem scientificLiteral_fracText (n : Dec) :
    (scientificLiteral n).frac.elim [] (fun d => '.' :: d.chars) =
      if (magnitudeText n.c).chars.length > 1 then '.' :: (magnitudeText n.c).chars.drop 1
      else [] := by
  unfold scientificLiteral
  dsimp only
  split <;> rfl

theorem coefficient_of_chars {l : Literal} {n : Dec} {k : ℕ}
    (hneg : l.negative = n.isNegative) (hvalue : l.digits.value = n.c.natAbs * 10 ^ k) :
    l.coefficient = n.c * pow10 k := by
  have hcast : ((n.c.natAbs * 10 ^ k : ℕ) : ℤ) = |n.c| * pow10 k := by
    simp [pow10]
  unfold Literal.coefficient
  rw [hneg, hvalue, hcast]
  by_cases hc : n.c < 0
  · rw [if_pos (isNegative_iff.2 hc), abs_of_neg hc]
    ring
  · rw [if_neg (by simpa using hc), abs_of_nonneg (not_lt.1 hc)]

theorem literalDec_scientificLiteral {n : Dec} (hc : n.c ≠ 0) :
    literalDec (scientificLiteral n) = n := by
  have hpos := digits_pos hc
  have hcoeff : (scientificLiteral n).coefficient = n.c := by
    have hvalue : (scientificLiteral n).digits.value = n.c.natAbs * 10 ^ 0 := by
      rw [pow_zero, mul_one, DigitText.value]
      dsimp only [Literal.digits]
      rw [scientificLiteral_chars]
      exact DigitText.value_ofNat _
    simpa [pow10] using coefficient_of_chars rfl hvalue
  -- All digits but one stand behind the point.
  have hscale : ((scientificLiteral n).scale : ℤ) = digits n.c - 1 := by
    have hlen := congrArg List.length (scientificLiteral_chars n)
    rw [List.length_append, length_magnitudeText hc] at hlen
    have hint : (scientificLiteral n).int.chars.length = 1 := by
      dsimp only [scientificLiteral, DigitText.take]
      rw [List.length_take, length_magnitudeText hc]
      omega
    unfold Literal.scale
    omega
  have hexp : (scientificLiteral n).exponentValue = displayExponent n :=
    elim_exponentPart_value _
  unfold literalDec
  rw [hcoeff, hscale, hexp, displayExponent]
  cases n
  congr 1
  ring

theorem formatScientific_eq {x n : Dec} (hx : IsFloat x) (h : Stripped x n) :
    formatScientific x = .ok (scientificLiteral n).text := by
  have hx0 := h.source_ne_zero
  have hb := h.bounds hx
  have hlen := length_magnitudeText h.ne_zero
  have htext : (scientificLiteral n).text =
      (if n.isNegative then ['-'] else []) ++ (magnitudeText n.c).chars.take 1 ++
        (if (magnitudeText n.c).chars.length > 1 then '.' :: (magnitudeText n.c).chars.drop 1
          else []) ++
        (if displayExponent n ≠ 0 then 'e' :: intText (displayExponent n) else []) := by
    rw [← elim_exponentPart_text, ← scientificLiteral_fracText]
    simp only [Literal.text, Literal.mantissaText, List.append_assoc]
    rfl
  rw [htext]
  unfold formatScientific
  rw [if_neg (by simpa using hx0), h.normalized]
  change (do
    let top ← i64 (n.e + (intText |n.c|).length)
    let display ← i64 (top - 1)
    pure <|
      (if n.isNegative then ['-'] else []) ++
      (intText |n.c|).take 1 ++
      (if (intText |n.c|).length > 1 then '.' :: (intText |n.c|).drop 1 else []) ++
      (if display ≠ 0 then 'e' :: intText display else [])) = _
  rw [intText_abs, hlen]
  -- Both `i64` results are in range for a Float.
  have htop : i64 (n.e + digits n.c) = .ok (n.e + digits n.c) := if_pos ⟨by omega, by omega⟩
  have hdisplay : i64 (n.e + digits n.c - 1) = .ok (displayExponent n) :=
    if_pos ⟨by omega, by omega⟩
  rw [htop]
  change (i64 (n.e + digits n.c - 1) >>= _) = _
  rw [hdisplay]
  rfl

theorem renders_scientificLiteral {x n : Dec} (hx : IsFloat x) (h : Stripped x n) :
    Renders x (scientificLiteral n) := by
  have hb := h.bounds hx
  have hexp : (scientificLiteral n).exponentValue = displayExponent n :=
    elim_exponentPart_value _
  refine ⟨by rw [literalDec_scientificLiteral h.ne_zero, h.val], ?_, ?_⟩
  · rw [hexp]
    unfold displayExponent
    constructor <;> omega
  · rw [literalDec_scientificLiteral h.ne_zero]
    unfold PackSafe
    omega

/-! ## The plain form -/

def zeroDigit : DigitText :=
  ⟨['0'], by simp, by simp⟩

/-- The literal of the plain form: no point for an integer, the point inside the digits, or the
digits behind a zero, a point and further zeros. -/
def plainLiteral (n : Dec) : Literal :=
  let d := magnitudeText n.c
  let point := (-n.e).toNat
  if 0 ≤ n.e then
    ⟨n.isNegative, d.appendZeros n.e.toNat, none, none⟩
  else if h : 0 < point ∧ point < d.chars.length then
    ⟨n.isNegative, d.take (d.chars.length - point) (by omega),
      some (d.drop (d.chars.length - point) (by omega)), none⟩
  else
    ⟨n.isNegative, zeroDigit, some (d.prependZeros (point - d.chars.length)), none⟩

theorem plainLiteral_of_nonneg {n : Dec} (h : 0 ≤ n.e) :
    plainLiteral n = ⟨n.isNegative, (magnitudeText n.c).appendZeros n.e.toNat, none, none⟩ :=
  if_pos h

theorem plainLiteral_of_inside {n : Dec} (h : n.e < 0)
    (hlen : (-n.e).toNat < (magnitudeText n.c).chars.length) :
    plainLiteral n = ⟨n.isNegative,
      (magnitudeText n.c).take ((magnitudeText n.c).chars.length - (-n.e).toNat) (by omega),
      some ((magnitudeText n.c).drop ((magnitudeText n.c).chars.length - (-n.e).toNat) (by omega)),
      none⟩ := by
  unfold plainLiteral
  rw [if_neg (by omega), dif_pos ⟨by omega, hlen⟩]

theorem plainLiteral_of_behind {n : Dec} (h : n.e < 0)
    (hlen : ¬ (-n.e).toNat < (magnitudeText n.c).chars.length) :
    plainLiteral n = ⟨n.isNegative, zeroDigit,
      some ((magnitudeText n.c).prependZeros ((-n.e).toNat - (magnitudeText n.c).chars.length)),
      none⟩ := by
  unfold plainLiteral
  rw [if_neg (by omega), dif_neg (by omega)]

theorem plainDigits_eq {n : Dec} (hi : I64 (-n.e)) :
    ∃ r, plainDigits (magnitudeText n.c).chars n.e = .ok r ∧
      (plainLiteral n).text = (if n.isNegative then ['-'] else []) ++ r := by
  unfold plainDigits
  rcases le_or_gt 0 n.e with he | he
  · refine ⟨_, if_pos he, ?_⟩
    rw [plainLiteral_of_nonneg he]
    simp [Literal.text, Literal.mantissaText, Literal.signText, DigitText.appendZeros, zeros]
  · have hneg : i64 (-n.e) = .ok (-n.e) := if_pos hi
    rw [if_neg (by omega), hneg]
    by_cases hlen : (-n.e).toNat < (magnitudeText n.c).chars.length
    · refine ⟨_, if_pos hlen, ?_⟩
      rw [plainLiteral_of_inside he hlen]
      simp [Literal.text, Literal.mantissaText, Literal.signText, DigitText.take, DigitText.drop]
    · refine ⟨_, if_neg hlen, ?_⟩
      rw [plainLiteral_of_behind he hlen]
      simp [Literal.text, Literal.mantissaText, Literal.signText, zeroDigit,
        DigitText.prependZeros, zeros]

theorem value_magnitudeText (c : ℤ) :
    Nat.ofDigitChars 10 (magnitudeText c).chars 0 = c.natAbs :=
  DigitText.value_ofNat _

/-- The plain form of a decimal denotes its value. -/
theorem literalDec_plainLiteral {n : Dec} (hc : n.c ≠ 0) :
    (0 ≤ n.e → literalDec (plainLiteral n) = ⟨n.c * pow10 n.e.toNat, 0⟩) ∧
      (n.e < 0 → literalDec (plainLiteral n) = n) := by
  have hlenpos := length_magnitudeText hc
  -- With a point anywhere among the digits, the scale gives the exponent back.
  have hkeep : ∀ l : Literal, l.negative = n.isNegative → l.digits.value = n.c.natAbs →
      l.exponent = none → (l.scale : ℤ) = -n.e → literalDec l = n := by
    intro l hneg hvalue hexp hscale
    have hcoeff := coefficient_of_chars (k := 0) hneg (by rw [hvalue, pow_zero, mul_one])
    have hzero : l.exponentValue = 0 := by simp [Literal.exponentValue, hexp]
    unfold literalDec
    rw [hcoeff, hscale, hzero]
    cases n
    simp [pow10]
  refine ⟨fun he => ?_, fun he => ?_⟩
  · rw [plainLiteral_of_nonneg he]
    have hcoeff := coefficient_of_chars (n := n) (k := n.e.toNat)
      (l := ⟨n.isNegative, (magnitudeText n.c).appendZeros n.e.toNat, none, none⟩) rfl (by
        have := DigitText.value_appendZeros (magnitudeText n.c) n.e.toNat
        rw [DigitText.value, DigitText.value, value_magnitudeText, mul_comm] at this
        simpa [DigitText.value, Literal.digits, Literal.fracChars] using this)
    unfold literalDec
    rw [hcoeff]
    simp [Literal.exponentValue, Literal.scale, Literal.fracChars]
  · by_cases hlen : (-n.e).toNat < (magnitudeText n.c).chars.length
    · rw [plainLiteral_of_inside he hlen]
      refine hkeep _ rfl ?_ rfl ?_
      · simp [DigitText.value, Literal.digits, Literal.fracChars, DigitText.take, DigitText.drop,
          value_magnitudeText]
      · simp only [Literal.scale, Literal.fracChars, DigitText.drop, Option.elim_some,
          List.length_drop]
        omega
    · rw [plainLiteral_of_behind he hlen]
      refine hkeep _ rfl ?_ rfl ?_
      · have := DigitText.value_prependZeros (magnitudeText n.c)
          ((-n.e).toNat - (magnitudeText n.c).chars.length)
        rw [DigitText.value, DigitText.value, value_magnitudeText] at this
        simpa [DigitText.value, Literal.digits, Literal.fracChars, zeroDigit,
          Nat.ofDigitChars_cons] using this
      · simp only [Literal.scale, Literal.fracChars, DigitText.prependZeros, Option.elim_some,
          List.length_append, List.length_replicate]
        omega

theorem exponent_plainLiteral (n : Dec) : (plainLiteral n).exponent = none := by
  unfold plainLiteral
  dsimp only
  split
  · rfl
  · split <;> rfl

theorem renders_plainLiteral {x n : Dec} (hx : IsFloat x) (h : Stripped x n)
    (he : -1000 ≤ n.e ∧ n.e ≤ 1000) : Renders x (plainLiteral n) := by
  have hb := h.bounds hx
  have hlit := literalDec_plainLiteral h.ne_zero
  have hexp : (plainLiteral n).exponentValue = 0 := by
    simp [Literal.exponentValue, exponent_plainLiteral]
  have hi64 : I64 (plainLiteral n).exponentValue := by
    rw [hexp]
    constructor <;> omega
  rcases le_or_gt 0 n.e with h0 | h0
  · have hval : (literalDec (plainLiteral n)).val = n.val := by
      rw [hlit.1 h0, val_eq_intCast h0]
      simp [val]
    refine ⟨hval.trans h.val, hi64, ?_⟩
    rw [hlit.1 h0]
    have hd : digits (n.c * pow10 n.e.toNat) ≤ 1068 :=
      digits_le (natAbs_mul_pow10_lt (by omega))
    refine ⟨?_, ?_, ?_⟩ <;> dsimp only <;> omega
  · rw [← hlit.2 h0] at h
    refine ⟨h.val, hi64, ?_⟩
    rw [hlit.2 h0]
    unfold PackSafe
    omega

theorem formatPlain_eq {x n : Dec} (hx : IsFloat x) (h : Stripped x n) :
    formatPlain x = .ok (if |n.e| > 1000 then .error .unformatableExponent
      else .ok (plainLiteral n).text) := by
  have hx0 : x.c ≠ 0 := h.source_ne_zero
  have hb := h.bounds hx
  rcases plainDigits_eq (n := n) ⟨by omega, by omega⟩ with ⟨r, hr, htext⟩
  have habs : i64 |n.e| = .ok |n.e| := by
    rcases abs_cases n.e with hcase | hcase <;> exact if_pos ⟨by omega, by omega⟩
  unfold formatPlain
  rw [if_neg (by simpa using hx0), h.normalized]
  change (i64 |n.e| >>= _) = _
  rw [habs]
  change (if |n.e| > 1000 then _ else _) = _
  split
  · rfl
  · rw [intText_abs, hr, htext]
    rfl

/-! ## Both forms on every Float -/

theorem renders_zeroLiteral {x : Dec} (h0 : x.c = 0) : Renders x zeroLiteral := by
  have hdec : literalDec zeroLiteral = zero := by decide
  refine ⟨by rw [hdec, val_zero, val_eq_zero_iff.2 h0], by decide, ?_⟩
  rw [hdec]
  exact isFloat_zero.isOperand.packSafe

theorem exists_scientific {x : Dec} (hx : IsFloat x) :
    ∃ l : Literal, formatScientific x = .ok l.text ∧ Renders x l := by
  by_cases h0 : x.c = 0
  · exact ⟨zeroLiteral, if_pos (isZero_iff.2 h0), renders_zeroLiteral h0⟩
  · rcases hx.exists_stripped h0 with ⟨n, hn⟩
    exact ⟨_, formatScientific_eq hx hn, renders_scientificLiteral hx hn⟩

/-- The plain form exists exactly for a stripped exponent of at most 1000 in magnitude. -/
theorem exists_plain {x : Dec} (hx : IsFloat x) :
    ∃ n, x.normalized = .ok n ∧ n.val = x.val ∧ (x.val ≠ 0 → ¬ (10 : ℤ) ∣ n.c) ∧
      ((x.val = 0 ∨ -1000 ≤ n.e ∧ n.e ≤ 1000) ∧
          (∃ l : Literal, formatPlain x = .ok (.ok l.text) ∧ l.exponent = none ∧ Renders x l) ∨
        ¬ (x.val = 0 ∨ -1000 ≤ n.e ∧ n.e ≤ 1000) ∧
          formatPlain x = .ok (.error .unformatableExponent)) := by
  by_cases h0 : x.c = 0
  · have hv := val_eq_zero_iff.2 h0
    refine ⟨zero, dif_pos h0, by rw [val_zero, hv], fun hne => absurd hv hne,
      Or.inl ⟨Or.inl hv, ?_⟩⟩
    exact ⟨zeroLiteral, if_pos (isZero_iff.2 h0), rfl, renders_zeroLiteral h0⟩
  · have hv : x.val ≠ 0 := mt val_eq_zero_iff.1 h0
    rcases hx.exists_stripped h0 with ⟨n, hn⟩
    have hformat := formatPlain_eq hx hn
    refine ⟨n, hn.normalized, hn.val, fun _ => hn.notDvd, ?_⟩
    by_cases he : -1000 ≤ n.e ∧ n.e ≤ 1000
    · rw [if_neg (by rw [gt_iff_lt, not_lt, abs_le]; exact he)] at hformat
      exact Or.inl ⟨Or.inr he, _, hformat, exponent_plainLiteral n, renders_plainLiteral hx hn he⟩
    · rw [if_pos (by rw [gt_iff_lt, ← not_le, abs_le]; exact he)] at hformat
      exact Or.inr ⟨by simp [hv, he], hformat⟩

theorem formatScientific_congr {x y : Dec} (hx : IsFloat x) (hy : IsFloat y)
    (hv : x.val = y.val) : formatScientific x = formatScientific y := by
  -- Zeros have one text whatever their exponent; other values are stripped first.
  have hiff : x.c = 0 ↔ y.c = 0 := by rw [← val_eq_zero_iff, hv, val_eq_zero_iff]
  by_cases h0 : x.c = 0
  · unfold formatScientific
    rw [if_pos (isZero_iff.2 h0), if_pos (isZero_iff.2 (hiff.1 h0))]
  · rcases hx.exists_stripped h0 with ⟨n, hn⟩
    rcases hy.exists_stripped (mt hiff.2 h0) with ⟨m, hm⟩
    rw [formatScientific_eq hx hn, formatScientific_eq hy hm, hn.unique hm hv]

theorem formatPlain_congr {x y : Dec} (hx : IsFloat x) (hy : IsFloat y) (hv : x.val = y.val) :
    formatPlain x = formatPlain y := by
  have hiff : x.c = 0 ↔ y.c = 0 := by rw [← val_eq_zero_iff, hv, val_eq_zero_iff]
  by_cases h0 : x.c = 0
  · unfold formatPlain
    rw [if_pos (isZero_iff.2 h0), if_pos (isZero_iff.2 (hiff.1 h0))]
  · rcases hx.exists_stripped h0 with ⟨n, hn⟩
    rcases hy.exists_stripped (mt hiff.2 h0) with ⟨m, hm⟩
    rw [formatPlain_eq hx hn, formatPlain_eq hy hm, hn.unique hm hv]

/-- A text without an exponent has neither of its markers. -/
theorem no_marker_of_exponent_none {l : Literal} (h : l.exponent = none) {c : Char}
    (hc : c ∈ l.text) : c ≠ 'e' ∧ c ≠ 'E' := by
  have htext : l.text = l.mantissaText := by simp [Literal.text, h]
  have := mantissaText_no_marker (htext ▸ hc)
  simpa using this

/-! ## Exactness and canonicity -/

/-- `t` is a literal that is read as the value of `x` and parsed to it. -/
def ReadsBack (t : Text) (x : Dec) : Prop :=
  IsLiteral t ∧ (∃ w, literalValue t = .ok w ∧ w.val = x.val) ∧
    ∃ w, parseRef t = .ok (.value w) ∧ w.val = x.val

theorem Renders.readsBack {x : Dec} {l : Literal} (h : Renders x l) (hx : IsFloat x) :
    ReadsBack l.text x := by
  rcases h.reads hx with ⟨hread, v, hparse, -, hval⟩
  exact ⟨l.isLiteral_text, ⟨_, hread, h.val⟩, v, hparse, hval⟩

theorem ReadsBack.val_eq {t : Text} {x y : Dec} (h : ReadsBack t x) (h' : ReadsBack t y) :
    x.val = y.val := by
  rcases h.2.1 with ⟨w, hw, hx⟩
  rcases h'.2.1 with ⟨w', hw', hy⟩
  rw [hw] at hw'
  rw [← hx, ← hy, Except.ok.inj hw']

/-- Both renderings of a Float read back as its value, the plain one exists exactly for a stripped
exponent within 1000 of zero and shows no exponent, and each determines the value and is
determined by it. -/
theorem renderings_exact_and_canonical (x y : Dec) (hx : IsFloat x) (hy : IsFloat y) :
    (∃ t, formatScientific x = .ok t ∧ ReadsBack t x) ∧
    (∃ n r, x.normalized = .ok n ∧ n.val = x.val ∧ (x.val ≠ 0 → ¬ (10 : ℤ) ∣ n.c) ∧
      formatPlain x = .ok r ∧
      ((∃ t, r = .ok t) ↔ x.val = 0 ∨ -1000 ≤ n.e ∧ n.e ≤ 1000) ∧
      (∀ t, r = .ok t → ReadsBack t x ∧ ∀ c ∈ t, c ≠ 'e' ∧ c ≠ 'E')) ∧
    (formatScientific x = formatScientific y ↔ x.val = y.val) ∧
    (∀ t s, formatPlain x = .ok (.ok t) → formatPlain y = .ok (.ok s) →
      (t = s ↔ x.val = y.val)) := by
  -- Every plain text there is reads back, which the injectivity of the form needs as well.
  have hplain : ∀ {z : Dec} {t : Text}, IsFloat z → formatPlain z = .ok (.ok t) →
      ReadsBack t z ∧ ∀ c ∈ t, c ≠ 'e' ∧ c ≠ 'E' := by
    intro z t hz ht
    rcases exists_plain hz with ⟨n, -, -, -, ⟨-, l, hl, hexp, hrender⟩ | ⟨-, herr⟩⟩
    · rw [hl] at ht
      cases ht
      exact ⟨hrender.readsBack hz, fun c hc => no_marker_of_exponent_none hexp hc⟩
    · rw [herr] at ht
      cases ht
  refine ⟨?_, ?_, ⟨?_, formatScientific_congr hx hy⟩, ?_⟩
  · rcases exists_scientific hx with ⟨l, hl, hrender⟩
    exact ⟨_, hl, hrender.readsBack hx⟩
  · rcases exists_plain hx with ⟨n, hn, hval, hdvd, ⟨he, l, hl, -, -⟩ | ⟨he, herr⟩⟩
    · refine ⟨n, _, hn, hval, hdvd, hl, iff_of_true ⟨_, rfl⟩ he, ?_⟩
      rintro _ ⟨⟩
      exact hplain hx hl
    · refine ⟨n, _, hn, hval, hdvd, herr, iff_of_false (by simp) he, by simp⟩
  · intro htext
    rcases exists_scientific hx with ⟨l, hl, hrender⟩
    rcases exists_scientific hy with ⟨m, hm, hrender'⟩
    rw [hl, hm] at htext
    exact hrender.val_eq hrender' (Except.ok.inj htext)
  · intro t s ht hs
    constructor
    · rintro rfl
      exact (hplain hx ht).1.val_eq (hplain hy hs).1
    · intro hv
      rw [formatPlain_congr hx hy hv, hs] at ht
      cases ht
      rfl

/-- Two representations of 1200, and the scientific text they share. -/
theorem renderings_exact_and_canonical_twelve_hundred :
    (formatScientific ⟨12, 2⟩ = formatScientific ⟨1200, 0⟩ ↔
      (⟨12, 2⟩ : Dec).val = (⟨1200, 0⟩ : Dec).val) :=
  (renderings_exact_and_canonical ⟨12, 2⟩ ⟨1200, 0⟩ ⟨by decide, by decide, by decide⟩
    ⟨by decide, by decide, by decide⟩).2.2.1

example : formatScientific ⟨-1250, -3⟩ = .ok "-1.25".toList := by
  decide +kernel

end Reference
end RainFloat
