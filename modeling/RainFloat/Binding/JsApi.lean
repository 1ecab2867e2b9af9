import RainFloat.Binding.Float

/-!
# JsApi — Floats as JavaScript bigints

`tryToBigint` reads the hex text of a Float as a bigint; `tryFromBigint` goes back through the hex
text of the bigint, which has no leading zeros and possibly an odd length or a sign.

* `tryFromBigint_of_lt`: every bigint of at most 256 bits becomes its 32 big-endian bytes;
* `tryFromBigint_of_neg`: a sign is never hex, wherever the padding zero puts it;
* `tryFromBigint_of_le`: more than 32 bytes reach `left_padding_from`, which reports no error.
-/

namespace RainFloat
namespace Binding

open Foundation Reference

/-- The functions of `js_sys::BigInt` the binding calls. -/
structure JsBigInt where
  toString16 : ℤ → Except Text Text
  fromStr : Text → Except Text ℤ

/-- The text of a bigint to the base 16. -/
def hexOf (v : ℤ) : Text :=
  if v < 0 then '-' :: Nat.toDigits 16 v.natAbs else Nat.toDigits 16 v.natAbs

/-- What JavaScript specifies for them. -/
structure JsBigInt.Documented (js : JsBigInt) : Prop where
  toString16 : ∀ v, js.toString16 v = .ok (hexOf v)
  fromStr : ∀ t n, t ≠ [] → hexNumber t = some n → js.fromStr ('0' :: 'x' :: t) = .ok (n : ℤ)

/-- `Float::try_to_bigint` -/
def tryToBigint (lib : HexLibrary) (js : JsBigInt) (f : Float) : Except FloatError ℤ :=
  match js.fromStr (f.asHex lib) with
  | .ok v => .ok v
  | .error e => .error (.jsSysError e)

/-- A zero in front of a text of odd length. -/
def padOdd (value : Text) : Text :=
  if value.length % 2 = 1 then '0' :: value else value

/-- `Float::try_from_bigint` -/
def tryFromBigint (lib : HexLibrary) (js : JsBigInt) (value : ℤ) :
    Exec (Except FloatError Float) :=
  match js.toString16 value with
  | .error e => pure (.error (.jsSysError e))
  | .ok text =>
    match lib.decode (padOdd text) with
    | .error e => pure (.error (.alloyFromHexError e))
    | .ok bytes => do
      -- The number of bytes is not checked before they are padded.
      let padded ← lib.leftPaddingFrom bytes
      pure (.ok padded)

/-! ## Texts of bigints -/

theorem hexDigitValue_x : hexDigitValue 'x' = none := by
  decide

theorem hexDigitValue_minus : hexDigitValue '-' = none := by
  decide

theorem even_length_padOdd (s : Text) : (padOdd s).length % 2 = 0 := by
  unfold padOdd
  split
  · rw [List.length_cons]
    omega
  · omega

theorem length_padOdd_le {s : Text} {k : ℕ} (h : s.length ≤ 2 * k) : (padOdd s).length ≤ 2 * k := by
  unfold padOdd
  split
  · rw [List.length_cons]
    omega
  · exact h

theorem mem_padOdd {s : Text} {c : Char} (h : c ∈ s) : c ∈ padOdd s := by
  unfold padOdd
  split
  · exact List.mem_cons_of_mem _ h
  · exact h

theorem hexNumber_padOdd {s : Text} {n : ℕ} (h : hexNumber s = some n) :
    hexNumber (padOdd s) = some n := by
  unfold padOdd
  split
  · have h0 : hexDigitValue '0' = some 0 := by decide
    simp [hexNumber, h0, h]
  · exact h

/-- A text of digits has no prefix to strip. -/
theorem stripHexPrefix_of_hexNumber {s : Text} {n : ℕ} (h : hexNumber s = some n) :
    stripHexPrefix s = s := by
  unfold stripHexPrefix
  split
  · rename_i t
    simp [hexNumber, hexDigitValue_x] at h
  · rfl

/-- Nor has a text with a sign. -/
theorem stripHexPrefix_padOdd_minus (t : Text) :
    stripHexPrefix (padOdd ('-' :: t)) = padOdd ('-' :: t) := by
  unfold padOdd
  split <;> rfl

/-- The bytes of a nonnegative bigint. -/
theorem exists_bytes_of_nonneg {v : ℤ} (h : 0 ≤ v) :
    ∃ l, hexBytes (stripHexPrefix (padOdd (hexOf v))) = some l ∧ (beValue l : ℤ) = v ∧
      2 * l.length = (padOdd (Nat.toDigits 16 v.natAbs)).length := by
  have htext : hexOf v = Nat.toDigits 16 v.natAbs := if_neg (not_lt.2 h)
  have hnum := hexNumber_padOdd (hexNumber_toDigits v.natAbs)
  rcases hexBytes_of_hexNumber hnum (even_length_padOdd _) with ⟨l, hl, hval, hlen⟩
  rw [htext, stripHexPrefix_of_hexNumber hnum]
  exact ⟨l, hl, by omega, hlen⟩

/-! ## The two directions -/

section Codec

variable {lib : HexLibrary} {js : JsBigInt}

theorem tryToBigint_eq (hlib : lib.Documented) (hjs : js.Documented) (f : Float) :
    tryToBigint lib js f = .ok (f.value : ℤ) := by
  rcases hlib.encodePrefixed f with ⟨t, ht, hread⟩
  have hnum := hexNumber_of_hexBytes hread
  have hne : t ≠ [] := by
    rintro rfl
    have := hnum.2
    rw [f.length_eq] at this
    simp at this
  rw [tryToBigint, Float.asHex, ht, hjs.fromStr t _ hne hnum.1]
  rfl

theorem tryFromBigint_of_lt (hlib : lib.Documented) (hjs : js.Documented) {v : ℤ} (h : 0 ≤ v)
    (h' : v < 2 ^ 256) : tryFromBigint lib js v = .ok (.ok (B256.ofNat v.toNat)) := by
  rcases exists_bytes_of_nonneg h with ⟨l, hl, hval, hlen⟩
  -- At most 64 digits, hence at most 32 bytes.
  have hdigits : (Nat.toDigits 16 v.natAbs).length ≤ 2 * 32 := by
    rw [Nat.length_toDigits_le_iff (by norm_num) (by norm_num)]
    have hpow : (16 : ℕ) ^ (2 * 32) = 2 ^ 256 := by norm_num
    omega
  have hle := length_padOdd_le hdigits
  rcases hlib.leftPaddingFrom l (by omega) with ⟨b, hb, hbytes⟩
  have hvalue : b.value = v.toNat := by
    rw [B256.value, hbytes, beValue_replicate_append]
    omega
  have hofNat : b = B256.ofNat v.toNat := by rw [← hvalue, B256.ofNat_value]
  rw [tryFromBigint, hjs.toString16]
  simp only [hlib.decode_ok _ _ hl, hb, hofNat]
  rfl

theorem tryFromBigint_of_neg (hlib : lib.Documented) (hjs : js.Documented) {v : ℤ} (h : v < 0) :
    ∃ e, tryFromBigint lib js v = .ok (.error e) := by
  have htext : hexOf v = '-' :: Nat.toDigits 16 v.natAbs := if_pos h
  -- The padding zero may end up in front of the sign but does not remove it.
  have hmem : '-' ∈ padOdd ('-' :: Nat.toDigits 16 v.natAbs) := mem_padOdd List.mem_cons_self
  have hnone : hexBytes (stripHexPrefix (padOdd (hexOf v))) = none := by
    rw [htext, stripHexPrefix_padOdd_minus]
    exact hexBytes_eq_none hmem hexDigitValue_minus
  rcases hlib.decode_error _ hnone with ⟨e, he⟩
  refine ⟨.alloyFromHexError e, ?_⟩
  rw [tryFromBigint, hjs.toString16]
  simp only [he]
  rfl

/-- From `2^256` on the bytes decode, and what `left_padding_from` does with them is no error. -/
theorem tryFromBigint_of_le (hlib : lib.Documented) (hjs : js.Documented) {v : ℤ}
    (h : 2 ^ 256 ≤ v) : ¬ ∃ e, tryFromBigint lib js v = .ok (.error e) := by
  have h0 : (0 : ℤ) ≤ v := le_trans (by norm_num) h
  rcases exists_bytes_of_nonneg h0 with ⟨l, hl, -, -⟩
  rintro ⟨e, he⟩
  rw [tryFromBigint, hjs.toString16] at he
  simp only [hlib.decode_ok _ _ hl] at he
  -- A padded value is a Float and a panic is no `Err`.
  cases hpad : lib.leftPaddingFrom l with
  | ok b =>
      rw [hpad] at he
      cases he
  | error p =>
      rw [hpad] at he
      cases he

/-- What a codec of the bigints `0 ≤ v < 2^256` does with `v`. -/
def CodecAt (lib : HexLibrary) (js : JsBigInt) (v : ℤ) : Prop :=
  (0 ≤ v → v < 2 ^ 256 → tryFromBigint lib js v = .ok (.ok (B256.ofNat v.toNat))) ∧
    (v < 0 ∨ 2 ^ 256 ≤ v → ∃ e, tryFromBigint lib js v = .ok (.error e))

/-- Floats and the bigints of at most 256 bits are in bijection, and `tryFromBigint` fails cleanly
below zero; it does what a codec should exactly below `2^256`. -/
theorem bigint_codec_iff (lib : HexLibrary) (js : JsBigInt) (hlib : lib.Documented)
    (hjs : js.Documented) (f : Float) (v : ℤ) :
    tryToBigint lib js f = .ok (f.value : ℤ) ∧ tryFromBigint lib js f.value = .ok (.ok f) ∧
      (CodecAt lib js v ↔ v < 2 ^ 256) := by
  refine ⟨tryToBigint_eq hlib hjs f, ?_, ?_, ?_⟩
  · have hlt : (f.value : ℤ) < 2 ^ 256 := by exact_mod_cast f.value_lt
    rw [tryFromBigint_of_lt hlib hjs (Int.natCast_nonneg _) hlt, Int.toNat_natCast,
      B256.ofNat_value]
  · intro hcodec
    by_contra hge
    exact tryFromBigint_of_le hlib hjs (not_lt.1 hge) (hcodec.2 (Or.inr (not_lt.1 hge)))
  · intro hlt
    refine ⟨fun h0 h1 => tryFromBigint_of_lt hlib hjs h0 h1, ?_⟩
    rintro (hneg | hge)
    · exact tryFromBigint_of_neg hlib hjs hneg
    · exact absurd hlt hge.not_gt

end Codec

/-! ## At a concrete bigint -/

/-- A `BigInt` with the specified behaviour on the texts the binding passes. -/
def jsBigInt : JsBigInt where
  toString16 v := .ok (hexOf v)
  fromStr s :=
    match s with
    | '0' :: 'x' :: t =>
      match hexNumber t with
      | some n => .ok (n : ℤ)
      | none => .error "SyntaxError".toList
    | _ => .error "SyntaxError".toList

theorem jsBigInt_documented : jsBigInt.Documented where
  toString16 v := rfl
  fromStr t n _ h := by simp [jsBigInt, h]

theorem bigint_codec_iff_five :
    tryFromBigint hexLibrary jsBigInt (B256.ofNat 5).value = .ok (.ok (B256.ofNat 5)) ∧
      (CodecAt hexLibrary jsBigInt (2 ^ 256) ↔ (2 ^ 256 : ℤ) < 2 ^ 256) :=
  (bigint_codec_iff hexLibrary jsBigInt hexLibrary_documented jsBigInt_documented (B256.ofNat 5)
    (2 ^ 256)).2

/-- The first bigint of 257 bits is not refused with an error. -/
theorem tryFromBigint_two_pow_256 :
    ¬ ∃ e, tryFromBigint hexLibrary jsBigInt (2 ^ 256) = .ok (.error e) :=
  tryFromBigint_of_le hexLibrary_documented jsBigInt_documented le_rfl

end Binding
end RainFloat
