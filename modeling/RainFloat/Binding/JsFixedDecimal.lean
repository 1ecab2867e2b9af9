import RainFloat.Binding.ReferenceConcrete
import RainFloat.Reference.Amounts

/-!
# JsFixedDecimal — fixed-point integers as JavaScript bigints

An amount crosses the boundary as the decimal text of a bigint, which is unbounded and signed, and
becomes a `U256`; on the way back a `U256` is written and read as a bigint, or left as text.

* `FloatContract.PassesChecks.from_fixed_decimal`, `to_fixed_decimal`, and the lossy ones: what the
  checks of the tests leave of the calls to the contract;
* `js_fixed_decimal_round_trip`: bigints outside the range of `U256` are refused before any call,
  and all others come back as they were, or less what was reported as lost.
-/

namespace RainFloat
namespace Binding

open Foundation Reference

/-! ## The functions -/

/-- The functions of `js_sys::BigInt` and `U256` that go through decimal text, and the `Display` of
an error. -/
structure DecimalLibrary where
  toString10 : ℤ → Except Text Text
  u256FromStr : Text → Except Text U256
  u256ToString : U256 → Text
  bigintFromStr : Text → Except Text ℤ
  errorText : FloatError → Text

/-- `FloatError`, with the variant only these functions report. -/
inductive JsFloatError
  | float (error : FloatError)
  | alloyParseError (detail : Text)
  deriving DecidableEq, Repr

/-- What `fromFixedDecimalLossy` throws: the `RangeError` itself, or the text of an error. -/
inductive JsValue
  | rangeError (detail : Text)
  | string (text : Text)
  deriving DecidableEq, Repr

section Functions

variable (contract : FloatContract) (lib : DecimalLibrary)

/-- `Float::from_fixed_decimal_js` -/
def fromFixedDecimalJs (value : ℤ) (decimals : UInt8) : Except JsFloatError Float :=
  match lib.toString10 value with
  | .error e => .error (.float (.jsSysError e))
  | .ok valueStr =>
    match lib.u256FromStr valueStr with
    | .error e => .error (.alloyParseError e)
    | .ok val => (Float.fromFixedDecimal contract val decimals).mapError .float

/-- `Float::from_fixed_decimal_lossy_js` -/
def fromFixedDecimalLossyJs (value : ℤ) (decimals : UInt8) : Except JsValue (Float × Bool) :=
  match lib.toString10 value with
  | .error e => .error (.rangeError e)
  | .ok valueStr =>
    match lib.u256FromStr valueStr with
    | .error e => .error (.string e)
    | .ok val =>
      (Float.fromFixedDecimalLossy contract val decimals).mapError fun e =>
        .string (lib.errorText e)

/-- `Float::to_fixed_decimal_js` -/
def toFixedDecimalJs (self : Float) (decimals : UInt8) : Except JsFloatError ℤ :=
  match Float.toFixedDecimal contract self decimals with
  | .error e => .error (.float e)
  | .ok fixed =>
    match lib.bigintFromStr (lib.u256ToString fixed) with
    | .error e => .error (.float (.jsSysError e))
    | .ok value => .ok value

/-- `Float::to_fixed_decimal_lossy_js`: the value stays text. -/
def toFixedDecimalLossyJs (self : Float) (decimals : UInt8) : Except JsFloatError (Text × Bool) :=
  match Float.toFixedDecimalLossy contract self decimals with
  | .error e => .error (.float e)
  | .ok (fixed, lossless) => .ok (lib.u256ToString fixed, lossless)

end Functions

/-- What these functions are documented to do. -/
structure DecimalLibrary.Documented (lib : DecimalLibrary) : Prop where
  toString10 : ∀ v, lib.toString10 v = .ok (intText v)
  u256FromStr_ok : ∀ (d : DigitText) (w : U256), d.value = w.val → lib.u256FromStr d.chars = .ok w
  u256FromStr_overflow : ∀ d : DigitText, 2 ^ 256 ≤ d.value →
    ∃ e, lib.u256FromStr d.chars = .error e
  u256FromStr_sign : ∀ t, ∃ e, lib.u256FromStr ('-' :: t) = .error e
  u256ToString : ∀ v, lib.u256ToString v = Nat.toDigits 10 v.val
  bigintFromStr : ∀ d : DigitText, lib.bigintFromStr d.chars = .ok (d.value : ℤ)

/-! ## Bigints and their texts -/

namespace DecimalLibrary.Documented

variable {lib : DecimalLibrary}

/-- A bigint in the range of `U256` passes through its text. -/
theorem exists_u256 (h : lib.Documented) {v : ℤ} (h0 : 0 ≤ v) (hlt : v < 2 ^ 256) :
    ∃ (t : Text) (w : U256), lib.toString10 v = .ok t ∧ lib.u256FromStr t = .ok w ∧
      (w.val : ℤ) = v := by
  -- Without a sign the text is that of the digits.
  have htext : intText v = (DigitText.ofNat v.natAbs).chars := if_neg (not_lt.2 h0)
  have hval : v.natAbs < 2 ^ 256 := by omega
  refine ⟨_, ⟨v.natAbs, hval⟩, h.toString10 v, ?_, ?_⟩
  · rw [htext]
    apply h.u256FromStr_ok
    exact DigitText.value_ofNat v.natAbs
  · exact Int.natAbs_of_nonneg h0

/-- A bigint outside it does not. -/
theorem exists_parse_error (h : lib.Documented) {v : ℤ} (hv : v < 0 ∨ 2 ^ 256 ≤ v) :
    ∃ t e, lib.toString10 v = .ok t ∧ lib.u256FromStr t = .error e := by
  -- The sign is no digit, and a larger number is too large for the parser.
  rcases hv with hneg | hge
  · rcases h.u256FromStr_sign (Nat.toDigits 10 v.natAbs) with ⟨e, he⟩
    refine ⟨_, e, h.toString10 v, ?_⟩
    rw [intText, if_pos hneg]
    exact he
  · have h0 : ¬ v < 0 := by omega
    have hvalue : 2 ^ 256 ≤ (DigitText.ofNat v.natAbs).value := by
      rw [DigitText.value_ofNat]
      omega
    rcases h.u256FromStr_overflow _ hvalue with ⟨e, he⟩
    refine ⟨_, e, h.toString10 v, ?_⟩
    rw [intText, if_neg h0]
    exact he

theorem bigintFromStr_u256ToString (h : lib.Documented) (w : U256) :
    lib.bigintFromStr (lib.u256ToString w) = .ok (w.val : ℤ) := by
  have hread := h.bigintFromStr (DigitText.ofNat w.val)
  rwa [DigitText.value_ofNat, DigitText.chars_ofNat, ← h.u256ToString] at hread

end DecimalLibrary.Documented

/-! ## The calls to the contract -/

namespace FloatContract.PassesChecks

variable {contract : FloatContract} {selector : String → UInt32}

theorem from_fixed_decimal (h : contract.PassesChecks selector) (v : U256) (d : UInt8) :
    (∃ f, Float.fromFixedDecimal contract v d = .ok f ∧
      (fromBytes f).val = (fixedValue v d).val) ∨
    (fixedValue v d).val ∉ Representable ∧
      ∃ e, Float.fromFixedDecimal contract v d = .error e ∧
        IsRevert selector e .lossyConversionToFloat := by
  rcases h.fromFixedDecimal v d with ⟨r, hr, hcheck⟩
  have hspec := (meets_readAmount (T := fun _ => False) v d).of_eq_ok hr
  rcases hspec with ⟨a, rfl, ha, haval⟩ | ⟨hnot, rfl⟩
  · rcases hcheck.of_ok with ⟨f, hf, heq⟩
    have hsame := sameFloat_of_eqValue (isFloat_fromBytes f) ha heq
    exact Or.inl ⟨f, hf, hsame.val.trans haval⟩
  · rcases hcheck.of_error with ⟨e, he, hrevert⟩
    exact Or.inr ⟨hnot, e, he, hrevert⟩

theorem from_fixed_decimal_lossy (h : contract.PassesChecks selector) (v : U256) (d : UInt8) :
    ∃ f lossless, Float.fromFixedDecimalLossy contract v d = .ok (f, lossless) ∧
      TruncatesTo Representable (fixedValue v d).val (fromBytes f).val ∧
      (lossless = true ↔ (fromBytes f).val = (fixedValue v d).val) := by
  rcases h.fromFixedDecimalLossy v d with ⟨⟨x, lossless⟩, hr, f, hcall, heq⟩
  rcases (meets_fromFixedDecimalLossy (T := fun _ => False) v d).of_eq_ok hr with
    ⟨hx, htrunc, hlossless⟩
  have hsame := sameFloat_of_eqValue (isFloat_fromBytes f) hx heq
  rw [← hsame.val] at htrunc hlossless
  exact ⟨f, lossless, hcall, htrunc, hlossless⟩

theorem to_fixed_decimal (h : contract.PassesChecks selector) (x : Float) (d : UInt8) (w : U256) :
    Float.toFixedDecimal contract x d = .ok w ↔
      (w.val : ℚ) = (fromBytes x).val * (10 : ℚ) ^ d.toNat := by
  rcases h.toFixedDecimal x d with ⟨r, hr, hcheck⟩
  have hspec :=
    (meets_toFixedDecimalLossless (T := fun _ => False) (isFloat_fromBytes x) d).of_eq_ok hr
  cases r with
  | ok g' =>
      rcases hcheck.of_ok with ⟨g, hcall, hsame⟩
      have hgg : g = g' := hsame
      have hval : (g'.val : ℚ) = (fromBytes x).val * (10 : ℚ) ^ d.toNat := hspec
      rw [hcall, ← hval, hgg]
      constructor
      · intro heq
        rw [Except.ok.inj heq]
      · intro heq
        have hnat : w.val = g'.val := by exact_mod_cast heq
        rw [Fin.ext hnat]
  | error e' =>
      rcases hcheck.of_error with ⟨e, hcall, -⟩
      rw [hcall]
      apply iff_of_false
      · simp
      · exact hspec w

theorem to_fixed_decimal_lossy (h : contract.PassesChecks selector) (x : Float) (d : UInt8)
    {w : U256} (hw : (w.val : ℚ) = (fromBytes x).val * (10 : ℚ) ^ d.toNat) :
    Float.toFixedDecimalLossy contract x d = .ok (w, true) := by
  rcases h.toFixedDecimalLossy x d with ⟨r, hr, hcheck⟩
  have hspec :=
    (meets_toFixedDecimalLossy (T := fun _ => False) (isFloat_fromBytes x) d).of_eq_ok hr
  rw [← hw] at hspec
  rw [eq_ok_of_writesFixed_natCast hspec] at hcheck
  rcases hcheck.of_ok with ⟨g, hcall, hsame⟩
  have hg : g = (w, true) := hsame
  rw [hcall, hg]

end FloatContract.PassesChecks

/-! ## The round trip -/

section RoundTrip

variable {contract : FloatContract} {selector : String → UInt32} {lib : DecimalLibrary}

/-- The value that a bigint stands for. -/
def bigintValue (value : ℤ) (decimals : UInt8) : ℚ :=
  (value : ℚ) / (10 : ℚ) ^ decimals.toNat

theorem bigintValue_eq {v : ℤ} {w : U256} (hw : (w.val : ℤ) = v) (d : UInt8) :
    (fixedValue w d).val = bigintValue v d := by
  rw [fixedValue_val, bigintValue, ← hw, Int.cast_natCast]

theorem toFixedDecimalJs_iff (h : contract.PassesChecks selector) (hlib : lib.Documented)
    (x : Float) (d : UInt8) (n : ℤ) :
    toFixedDecimalJs contract lib x d = .ok n ↔
      0 ≤ n ∧ n < 2 ^ 256 ∧ (n : ℚ) = (fromBytes x).val * (10 : ℚ) ^ d.toNat := by
  unfold toFixedDecimalJs
  constructor
  · intro hn
    cases hcall : Float.toFixedDecimal contract x d with
    | error e =>
        rw [hcall] at hn
        cases hn
    | ok w =>
        rw [hcall] at hn
        simp only [hlib.bigintFromStr_u256ToString] at hn
        have hnw : n = (w.val : ℤ) := (Except.ok.inj hn).symm
        have hval := (h.to_fixed_decimal x d w).1 hcall
        have hlt : (w.val : ℤ) < 2 ^ 256 := by exact_mod_cast w.isLt
        rw [hnw]
        exact ⟨Int.natCast_nonneg _, hlt, by exact_mod_cast hval⟩
  · -- The bigint is the value of a `U256`, which the contract returns.
    rintro ⟨h0, hlt, hval⟩
    have hnat : n.toNat < 2 ^ 256 := by omega
    have hcast : ((n.toNat : ℕ) : ℤ) = n := Int.toNat_of_nonneg h0
    have hw : (((⟨n.toNat, hnat⟩ : U256).val : ℕ) : ℚ) =
        (fromBytes x).val * (10 : ℚ) ^ d.toNat := by
      rw [← hval]
      exact_mod_cast hcast
    rw [(h.to_fixed_decimal x d _).2 hw]
    simp only [hlib.bigintFromStr_u256ToString]
    rw [hcast]

/-- What a bigint of the range of `U256` becomes. -/
theorem fromFixedDecimalJs_cases (h : contract.PassesChecks selector) (hlib : lib.Documented)
    {v : ℤ} (h0 : 0 ≤ v) (hlt : v < 2 ^ 256) (d : UInt8) :
    (∃ f, fromFixedDecimalJs contract lib v d = .ok f ∧
      (fromBytes f).val = bigintValue v d) ∨
    bigintValue v d ∉ Representable ∧
      ∃ e, fromFixedDecimalJs contract lib v d = .error (.float e) ∧
        IsRevert selector e .lossyConversionToFloat := by
  rcases hlib.exists_u256 h0 hlt with ⟨t, w, ht, hw, hval⟩
  have hrun : fromFixedDecimalJs contract lib v d =
      (Float.fromFixedDecimal contract w d).mapError .float := by
    simp only [fromFixedDecimalJs, ht, hw]
  rw [← bigintValue_eq hval d, hrun]
  rcases h.from_fixed_decimal w d with ⟨f, hf, hfval⟩ | ⟨hnot, e, he, hrevert⟩
  · exact Or.inl ⟨f, by rw [hf]; rfl, hfval⟩
  · exact Or.inr ⟨hnot, e, by rw [he]; rfl, hrevert⟩

/-- A bigint goes to a Float and back.  One that is no `U256` is refused with a parse error before
the contract is called.  Any other is converted exactly if its value is that of a Float, and then
comes back; the lossy conversion never fails, and what comes back, as text, is the whole bigint
exactly if it was reported so.  A Float goes to a bigint and back exactly if it is a number of units
in the range of `U256`, and keeps its value. -/
theorem js_fixed_decimal_round_trip (contract : FloatContract) (selector : String → UInt32)
    (lib : DecimalLibrary) (h : contract.PassesChecks selector) (hlib : lib.Documented)
    (v : ℤ) (d : UInt8) (x : Float) :
    (v < 0 ∨ 2 ^ 256 ≤ v →
      (∃ e, fromFixedDecimalJs contract lib v d = .error (.alloyParseError e)) ∧
      ∃ e, fromFixedDecimalLossyJs contract lib v d = .error (.string e)) ∧
    (0 ≤ v → v < 2 ^ 256 →
      ((∃ f, fromFixedDecimalJs contract lib v d = .ok f) ↔ bigintValue v d ∈ Representable) ∧
      (∀ f, fromFixedDecimalJs contract lib v d = .ok f →
        toFixedDecimalJs contract lib f d = .ok v) ∧
      ∃ f lossless t n, fromFixedDecimalLossyJs contract lib v d = .ok (f, lossless) ∧
        toFixedDecimalLossyJs contract lib f d = .ok (t, true) ∧ lib.bigintFromStr t = .ok n ∧
        0 ≤ n ∧ n ≤ v ∧ (lossless = true ↔ n = v)) ∧
    (∀ n, toFixedDecimalJs contract lib x d = .ok n ↔
      0 ≤ n ∧ n < 2 ^ 256 ∧ (n : ℚ) = (fromBytes x).val * (10 : ℚ) ^ d.toNat) ∧
    (∀ n, toFixedDecimalJs contract lib x d = .ok n →
      ∃ y, fromFixedDecimalJs contract lib n d = .ok y ∧
        (fromBytes y).val = (fromBytes x).val) := by
  have hpow : (0 : ℚ) < (10 : ℚ) ^ d.toNat := by positivity
  refine ⟨?_, ?_, toFixedDecimalJs_iff h hlib x d, ?_⟩
  · intro hv
    rcases hlib.exists_parse_error hv with ⟨t, e, ht, he⟩
    constructor
    · exact ⟨e, by simp only [fromFixedDecimalJs, ht, he]⟩
    · exact ⟨e, by simp only [fromFixedDecimalLossyJs, ht, he]⟩
  · intro h0 hlt
    -- The contract decides whether the value is that of a Float.
    have hcases := fromFixedDecimalJs_cases h hlib h0 hlt d
    refine ⟨?_, ?_, ?_⟩
    · constructor
      · rintro ⟨f, hf⟩
        rcases hcases with ⟨g, -, hval⟩ | ⟨-, e, he, -⟩
        · rw [← hval]
          exact (isFloat_fromBytes g).val_mem
        · rw [hf] at he
          cases he
      · intro hmem
        rcases hcases with ⟨f, hf, -⟩ | ⟨hnot, -⟩
        · exact ⟨f, hf⟩
        · exact absurd hmem hnot
    · intro f hf
      rcases hcases with ⟨g, hg, hval⟩ | ⟨-, e, he, -⟩
      · rw [hg] at hf
        rw [← Except.ok.inj hf]
        apply (toFixedDecimalJs_iff h hlib g d v).2
        refine ⟨h0, hlt, ?_⟩
        rw [hval, bigintValue, div_mul_cancel₀ _ hpow.ne']
      · rw [hf] at he
        cases he
    · rcases hlib.exists_u256 h0 hlt with ⟨t, w, ht, hw, hval⟩
      rcases h.from_fixed_decimal_lossy w d with ⟨f, lossless, hcall, htrunc, hlossless⟩
      rcases exists_u256_of_truncated htrunc with ⟨u, hu⟩
      -- Truncation cannot add units.
      have hunits : (fixedValue w d).val * (10 : ℚ) ^ d.toNat = w.val := by
        rw [fixedValue_val, div_mul_cancel₀ _ hpow.ne']
      have hle : (u.val : ℚ) ≤ w.val := by
        rw [hu, ← hunits]
        exact mul_le_mul_of_nonneg_right (htrunc.le_self (fixedValue_val_nonneg w d)) hpow.le
      refine ⟨f, lossless, lib.u256ToString u, u.val, ?_, ?_, hlib.bigintFromStr_u256ToString u,
        Int.natCast_nonneg _, ?_, ?_⟩
      · simp only [fromFixedDecimalLossyJs, ht, hw, hcall]
        rfl
      · simp only [toFixedDecimalLossyJs, h.to_fixed_decimal_lossy f d hu]
      · rw [← hval]
        exact_mod_cast hle
      · rw [hlossless, ← hval, ← mul_left_inj' hpow.ne', ← hu, hunits]
        norm_cast
  · intro n hn
    rcases (toFixedDecimalJs_iff h hlib x d n).1 hn with ⟨h0, hlt, hval⟩
    -- Divided by the units again, the bigint has the value of the Float.
    have hsame : bigintValue n d = (fromBytes x).val := by
      rw [bigintValue, hval, mul_div_cancel_right₀ _ hpow.ne']
    rcases fromFixedDecimalJs_cases h hlib h0 hlt d with ⟨y, hy, hyval⟩ | ⟨hnot, -⟩
    · exact ⟨y, hy, hyval.trans hsame⟩
    · rw [hsame] at hnot
      exact absurd (isFloat_fromBytes x).val_mem hnot

end RoundTrip

/-! ## At concrete bigints -/

/-- The documented behaviour on decimal digits and signs. -/
def decimalLibrary : DecimalLibrary where
  toString10 v := .ok (intText v)
  u256FromStr t :=
    if t.all Char.isDigit then
      if h : Nat.ofDigitChars 10 t 0 < 2 ^ 256 then .ok ⟨Nat.ofDigitChars 10 t 0, h⟩
      else .error "number too large".toList
    else .error "invalid digit".toList
  u256ToString v := Nat.toDigits 10 v.val
  bigintFromStr t :=
    if t.all Char.isDigit then .ok (Nat.ofDigitChars 10 t 0 : ℤ) else .error "SyntaxError".toList
  errorText _ := "error".toList

theorem decimalLibrary_documented : decimalLibrary.Documented where
  toString10 _ := rfl
  u256FromStr_ok d w hw := by
    have hdigits : d.chars.all Char.isDigit = true := List.all_eq_true.2 d.isDigit
    have hlt : Nat.ofDigitChars 10 d.chars 0 < 2 ^ 256 := by
      have hval : Nat.ofDigitChars 10 d.chars 0 = w.val := hw
      rw [hval]
      exact w.isLt
    simp only [decimalLibrary, hdigits, if_true, dif_pos hlt]
    exact congrArg Except.ok (Fin.ext hw)
  u256FromStr_overflow d hd := by
    have hdigits : d.chars.all Char.isDigit = true := List.all_eq_true.2 d.isDigit
    have hge : ¬ Nat.ofDigitChars 10 d.chars 0 < 2 ^ 256 := not_lt.2 hd
    refine ⟨"number too large".toList, ?_⟩
    simp only [decimalLibrary, hdigits, if_true, dif_neg hge]
  u256FromStr_sign t := ⟨_, rfl⟩
  u256ToString _ := rfl
  bigintFromStr d := by
    have hdigits : d.chars.all Char.isDigit = true := List.all_eq_true.2 d.isDigit
    simp only [decimalLibrary, hdigits, if_true]
    rfl

/-- `12345n` with two decimals. -/
theorem js_fixed_decimal_round_trip_cents :
    (∃ f, fromFixedDecimalJs (referenceConcrete refSelector) decimalLibrary 12345 2 = .ok f) ↔
      bigintValue 12345 2 ∈ Representable :=
  ((js_fixed_decimal_round_trip (referenceConcrete refSelector) refSelector decimalLibrary
    (referenceConcrete_passesChecks refSelector) decimalLibrary_documented 12345 2
    (layout ⟨1, 0⟩)).2.1 (by decide) (by decide)).1

end Binding
end RainFloat
