import Mathlib.Algebra.Order.Ring.Int
import Mathlib.Tactic.Linarith
import Mathlib.Tactic.Ring

/-!
# BigEndian — numbers as bytes and as hexadecimal digits

* `beBytes`, `beValue`: fixed-width big-endian bytes and the number they stand for, inverse to each
  other (`beValue_beBytes`, `beBytes_beValue`);
* `signedBytes`, `signedValue`: the same in two's complement, `minimalSignedBytes` with as few bytes
  as possible (`replicate_append_minimalSignedBytes` fills them up);
* `hexNumber`, `hexBytes`: hexadecimal digits read as a number and, in pairs, as bytes.
-/

namespace RainFloat
namespace Foundation

/-! ## Unsigned bytes -/

/-- The number whose big-endian bytes are given. -/
def beValue : List UInt8 → ℕ
  | [] => 0
  | b :: t => b.toNat * 256 ^ t.length + beValue t

/-- The `w` big-endian bytes of a number below `256^w`. -/
def beBytes : ℕ → ℕ → List UInt8
  | 0, _ => []
  | w + 1, n => UInt8.ofNat (n / 256 ^ w) :: beBytes w (n % 256 ^ w)

@[simp] theorem length_beBytes (w n : ℕ) : (beBytes w n).length = w := by
  induction w generalizing n with
  | zero => rfl
  | succ w ih => simp [beBytes, ih]

theorem beValue_lt (l : List UInt8) : beValue l < 256 ^ l.length := by
  induction l with
  | nil => simp [beValue]
  | cons b t ih =>
      have hb : b.toNat + 1 ≤ 256 := UInt8.toNat_lt b
      calc
        beValue (b :: t) = b.toNat * 256 ^ t.length + beValue t := rfl
        _ < b.toNat * 256 ^ t.length + 256 ^ t.length := by omega
        _ = (b.toNat + 1) * 256 ^ t.length := by ring
        _ ≤ 256 * 256 ^ t.length := Nat.mul_le_mul_right _ hb
        _ = 256 ^ (b :: t).length := by rw [List.length_cons, pow_succ, mul_comm]

theorem beBytes_beValue (l : List UInt8) : beBytes l.length (beValue l) = l := by
  induction l with
  | nil => rfl
  | cons b t ih =>
      have hlt := beValue_lt t
      have hpos : 0 < 256 ^ t.length := by positivity
      -- The bytes behind the first are a remainder, so division splits them off again.
      have hdiv : (b.toNat * 256 ^ t.length + beValue t) / 256 ^ t.length = b.toNat := by
        rw [mul_comm, Nat.mul_add_div hpos, Nat.div_eq_of_lt hlt, add_zero]
      have hmod : (b.toNat * 256 ^ t.length + beValue t) % 256 ^ t.length = beValue t := by
        rw [mul_comm, Nat.mul_add_mod, Nat.mod_eq_of_lt hlt]
      rw [List.length_cons, beBytes, beValue, hdiv, hmod, ih, UInt8.ofNat_toNat]

theorem beValue_beBytes {w n : ℕ} (h : n < 256 ^ w) : beValue (beBytes w n) = n := by
  induction w generalizing n with
  | zero =>
      have : n = 0 := by simpa using h
      simp [beBytes, beValue, this]
  | succ w ih =>
      have hpos : 0 < 256 ^ w := by positivity
      have hdigit : n / 256 ^ w < 256 := by
        rw [Nat.div_lt_iff_lt_mul hpos, ← pow_succ']
        exact h
      have hbyte : (UInt8.ofNat (n / 256 ^ w)).toNat = n / 256 ^ w := by
        rw [UInt8.toNat_ofNat']
        exact Nat.mod_eq_of_lt hdigit
      rw [beBytes, beValue, hbyte, length_beBytes, ih (Nat.mod_lt _ hpos), mul_comm,
        Nat.div_add_mod]

/-- Bytes of one width are determined by their number. -/
theorem beValue_injective {l m : List UInt8} (hlen : l.length = m.length)
    (h : beValue l = beValue m) : l = m := by
  rw [← beBytes_beValue l, ← beBytes_beValue m, hlen, h]

theorem beValue_replicate_append (k : ℕ) (l : List UInt8) :
    beValue (List.replicate k 0 ++ l) = beValue l := by
  induction k with
  | zero => rfl
  | succ k ih =>
      rw [List.replicate_succ, List.cons_append, beValue, ih]
      simp

/-! ## Two's complement -/

/-- The integer whose two's-complement bytes are given. -/
def signedValue (l : List UInt8) : ℤ :=
  if 2 * beValue l < 256 ^ l.length then beValue l else (beValue l : ℤ) - 256 ^ l.length

/-- The `w` two's-complement bytes of an integer. -/
def signedBytes (w : ℕ) (z : ℤ) : List UInt8 :=
  beBytes w (z % 256 ^ w).toNat

@[simp] theorem length_signedBytes (w : ℕ) (z : ℤ) : (signedBytes w z).length = w :=
  length_beBytes _ _

theorem signedValue_bounds (l : List UInt8) :
    -(256 ^ l.length : ℤ) ≤ 2 * signedValue l ∧ 2 * signedValue l < 256 ^ l.length := by
  have hlt : (beValue l : ℤ) < 256 ^ l.length := by exact_mod_cast beValue_lt l
  unfold signedValue
  split
  · rename_i h
    have h' : 2 * (beValue l : ℤ) < 256 ^ l.length := by exact_mod_cast h
    constructor <;> linarith [Int.natCast_nonneg (beValue l)]
  · rename_i h
    have h' : (256 ^ l.length : ℤ) ≤ 2 * beValue l := by exact_mod_cast not_lt.1 h
    constructor <;> linarith

theorem signedValue_signedBytes {w : ℕ} {z : ℤ} (h : -(256 ^ w : ℤ) ≤ 2 * z)
    (h' : 2 * z < 256 ^ w) : signedValue (signedBytes w z) = z := by
  have hpos : (0 : ℤ) < 256 ^ w := by positivity
  have hmod := Int.emod_nonneg z hpos.ne'
  have hlt := Int.emod_lt_of_pos z hpos
  have hcast : (((z % 256 ^ w).toNat : ℕ) : ℤ) = z % 256 ^ w := by omega
  have hnat : (z % 256 ^ w).toNat < 256 ^ w := by
    have : (((z % 256 ^ w).toNat : ℕ) : ℤ) < ((256 ^ w : ℕ) : ℤ) := by
      rw [hcast]
      exact_mod_cast hlt
    exact_mod_cast this
  have hvalue : beValue (signedBytes w z) = (z % 256 ^ w).toNat := beValue_beBytes hnat
  unfold signedValue
  rw [hvalue, length_signedBytes, hcast]
  rcases le_or_gt 0 z with h0 | h0
  · -- No wrap-around: the remainder is `z` itself.
    have hz : z % 256 ^ w = z := Int.emod_eq_of_lt h0 (by linarith)
    rw [hz] at hcast ⊢
    have : 2 * z.toNat < 256 ^ w := by
      have : 2 * ((z.toNat : ℕ) : ℤ) < ((256 ^ w : ℕ) : ℤ) := by
        rw [hcast]
        exact_mod_cast h'
      exact_mod_cast this
    rw [if_pos this]
  · -- A negative number wraps around once.
    have hz : z % 256 ^ w = z + 256 ^ w := by
      rw [← Int.add_emod_right]
      exact Int.emod_eq_of_lt (by linarith) (by linarith)
    rw [hz] at hcast ⊢
    have : ¬ 2 * (z + 256 ^ w).toNat < 256 ^ w := by
      intro hcon
      have : 2 * (((z + 256 ^ w).toNat : ℕ) : ℤ) < ((256 ^ w : ℕ) : ℤ) := by exact_mod_cast hcon
      rw [hcast] at this
      push_cast at this
      linarith
    rw [if_neg this]
    ring

/-- Every list of bytes is the two's complement of its integer. -/
theorem signedBytes_signedValue (l : List UInt8) : signedBytes l.length (signedValue l) = l := by
  have hlt : (beValue l : ℤ) < 256 ^ l.length := by exact_mod_cast beValue_lt l
  have hmod : signedValue l % 256 ^ l.length = beValue l := by
    unfold signedValue
    split
    · exact Int.emod_eq_of_lt (Int.natCast_nonneg _) hlt
    · rw [Int.sub_emod_right]
      exact Int.emod_eq_of_lt (Int.natCast_nonneg _) hlt
  rw [signedBytes, hmod, Int.toNat_natCast, beBytes_beValue]

/-- The byte a two's complement is extended with on the left. -/
def signByte (z : ℤ) : UInt8 :=
  if z < 0 then 0xff else 0

/-- Extension by one byte. -/
theorem signedValue_signByte_cons (l : List UInt8) :
    signedValue (signByte (signedValue l) :: l) = signedValue l := by
  have hlt := beValue_lt l
  have hpow : 256 ^ (l.length + 1) = 256 * 256 ^ l.length := pow_succ' _ _
  by_cases h : 2 * beValue l < 256 ^ l.length
  · have hval : signedValue l = beValue l := if_pos h
    have hbyte : signByte (beValue l : ℤ) = 0 := if_neg (by omega)
    have hcons : beValue (0 :: l) = beValue l := by simp [beValue]
    rw [hval, hbyte, signedValue, hcons, List.length_cons, if_pos (by omega)]
  · have hval : signedValue l = (beValue l : ℤ) - 256 ^ l.length := if_neg h
    have hneg : (beValue l : ℤ) - 256 ^ l.length < 0 := by
      have : (beValue l : ℤ) < 256 ^ l.length := by exact_mod_cast hlt
      linarith
    have hbyte : signByte ((beValue l : ℤ) - 256 ^ l.length) = 255 := if_pos hneg
    have hcons : beValue (255 :: l) = 255 * 256 ^ l.length + beValue l := rfl
    -- The byte adds 255 of the 256 units by which the modulus grows.
    rw [hval, hbyte, signedValue, hcons, List.length_cons, if_neg (by omega), pow_succ']
    push_cast
    ring

theorem signedValue_replicate_append (k : ℕ) (l : List UInt8) :
    signedValue (List.replicate k (signByte (signedValue l)) ++ l) = signedValue l := by
  induction k with
  | zero => rfl
  | succ k ih =>
      have hext := signedValue_signByte_cons (List.replicate k (signByte (signedValue l)) ++ l)
      rw [ih] at hext
      rw [List.replicate_succ, List.cons_append]
      exact hext

/-- Sign extension: more bytes than an integer needs are filled with its sign. -/
theorem signedBytes_eq_append {w n : ℕ} {z : ℤ} (h : -(256 ^ w : ℤ) ≤ 2 * z)
    (h' : 2 * z < 256 ^ w) (hwn : w ≤ n) :
    signedBytes n z = List.replicate (n - w) (signByte z) ++ signedBytes w z := by
  have hval := signedValue_replicate_append (n - w) (signedBytes w z)
  rw [signedValue_signedBytes h h'] at hval
  have hlen : (List.replicate (n - w) (signByte z) ++ signedBytes w z).length = n := by
    rw [List.length_append, List.length_replicate, length_signedBytes]
    omega
  have := signedBytes_signedValue (List.replicate (n - w) (signByte z) ++ signedBytes w z)
  rwa [hval, hlen] at this

/-- The number whose bits, below the sign bit, are those of `z` or their complements. -/
def signedMagnitude (z : ℤ) : ℕ :=
  if z < 0 then (-z - 1).toNat else z.toNat

/-- The number of bytes of the shortest two's complement, which has one byte at least. -/
def signedWidth (z : ℤ) : ℕ :=
  (Nat.log2 (signedMagnitude z) + 1) / 8 + 1

/-- The shortest two's-complement bytes of an integer. -/
def minimalSignedBytes (z : ℤ) : List UInt8 :=
  signedBytes (signedWidth z) z

theorem signedMagnitude_lt_iff {z : ℤ} {w : ℕ} :
    signedMagnitude z < 2 ^ (8 * w + 7) ↔
      -(256 ^ (w + 1) : ℤ) ≤ 2 * z ∧ 2 * z < 256 ^ (w + 1) := by
  have hpow : (256 : ℤ) ^ (w + 1) = 2 * 2 ^ (8 * w + 7) := by
    rw [← pow_succ', show 8 * w + 7 + 1 = 8 * (w + 1) by ring, pow_mul]
    norm_num
  have hcast : (signedMagnitude z : ℤ) = if z < 0 then -z - 1 else z := by
    unfold signedMagnitude
    split <;> omega
  have hlt : signedMagnitude z < 2 ^ (8 * w + 7) ↔ (signedMagnitude z : ℤ) < 2 ^ (8 * w + 7) := by
    exact_mod_cast Iff.rfl
  rw [hlt, hcast, hpow]
  split <;> constructor <;> intro h
  · constructor <;> linarith
  · linarith [h.1]
  · constructor <;> linarith
  · linarith [h.2]

theorem signedWidth_le_iff {z : ℤ} {w : ℕ} :
    signedWidth z ≤ w + 1 ↔ -(256 ^ (w + 1) : ℤ) ≤ 2 * z ∧ 2 * z < 256 ^ (w + 1) := by
  rw [← signedMagnitude_lt_iff, signedWidth]
  by_cases h0 : signedMagnitude z = 0
  · have hpos : 0 < 2 ^ (8 * w + 7) := by positivity
    simp [h0, Nat.log2_zero]
  · rw [← Nat.log2_lt h0]
    omega

theorem signedWidth_fits (z : ℤ) :
    -(256 ^ signedWidth z : ℤ) ≤ 2 * z ∧ 2 * z < 256 ^ signedWidth z := by
  have hpos : signedWidth z - 1 + 1 = signedWidth z := Nat.sub_add_cancel (Nat.le_add_left 1 _)
  have h : signedWidth z ≤ signedWidth z - 1 + 1 := hpos.ge
  rwa [signedWidth_le_iff, hpos] at h

/-- The shortest bytes stand for the integer. -/
theorem signedValue_minimalSignedBytes (z : ℤ) : signedValue (minimalSignedBytes z) = z :=
  signedValue_signedBytes (signedWidth_fits z).1 (signedWidth_fits z).2

/-- No other bytes of the integer are shorter. -/
theorem length_minimalSignedBytes_le {l : List UInt8} (hl : l ≠ []) :
    (minimalSignedBytes (signedValue l)).length ≤ l.length := by
  have hlen : l.length - 1 + 1 = l.length := Nat.sub_add_cancel (List.length_pos_iff.2 hl)
  rw [minimalSignedBytes, length_signedBytes, ← hlen, signedWidth_le_iff, hlen]
  exact signedValue_bounds l

-- The sign bit takes a byte of its own from 128 on.
example : minimalSignedBytes (-128) = [0x80] ∧ minimalSignedBytes 128 = [0, 0x80] := by
  decide

/-- Filled up with its sign, the shortest two's complement is the one of a given width. -/
theorem replicate_append_minimalSignedBytes {w : ℕ} {z : ℤ} (h : signedWidth z ≤ w) :
    List.replicate (w - (minimalSignedBytes z).length) (signByte z) ++ minimalSignedBytes z =
      signedBytes w z := by
  rw [minimalSignedBytes, length_signedBytes,
    signedBytes_eq_append (signedWidth_fits z).1 (signedWidth_fits z).2 h]

/-! ## Hexadecimal digits -/

/-- The value of a hexadecimal digit of either case. -/
def hexDigitValue (c : Char) : Option ℕ :=
  if c.isDigit then some (c.toNat - 48)
  else if 'a' ≤ c ∧ c ≤ 'f' then some (c.toNat - 87)
  else if 'A' ≤ c ∧ c ≤ 'F' then some (c.toNat - 55)
  else none

/-- The number a text of hexadecimal digits stands for. -/
def hexNumber : List Char → Option ℕ
  | [] => some 0
  | c :: t => do
    let d ← hexDigitValue c
    let v ← hexNumber t
    some (d * 16 ^ t.length + v)

/-- The bytes a text of pairs of hexadecimal digits stands for. -/
def hexBytes : List Char → Option (List UInt8)
  | [] => some []
  | [_] => none
  | a :: b :: t => do
    let hi ← hexDigitValue a
    let lo ← hexDigitValue b
    let r ← hexBytes t
    some (UInt8.ofNat (16 * hi + lo) :: r)

/-- The digits of bytes, in lower case. -/
def hexText : List UInt8 → List Char
  | [] => []
  | b :: t => Nat.digitChar (b.toNat / 16) :: Nat.digitChar (b.toNat % 16) :: hexText t

theorem length_hexText (l : List UInt8) : (hexText l).length = 2 * l.length := by
  induction l with
  | nil => rfl
  | cons b t ih =>
      rw [hexText, List.length_cons, List.length_cons, List.length_cons, ih]
      omega

theorem hexDigitValue_digitChar {d : ℕ} (h : d < 16) :
    hexDigitValue (Nat.digitChar d) = some d := by
  revert d
  decide

theorem hexDigitValue_lt {c : Char} {d : ℕ} (h : hexDigitValue c = some d) : d < 16 := by
  unfold hexDigitValue at h
  split at h
  · rename_i hc
    have := Char.isDigit_iff_toNat.1 hc
    cases h
    simp at this
    omega
  · split at h
    · rename_i hc
      have h1 : c.toNat ≤ 'f'.toNat := hc.2
      cases h
      simp at h1
      omega
    · split at h
      · rename_i hc
        have h1 : c.toNat ≤ 'F'.toNat := hc.2
        cases h
        simp at h1
        omega
      · cases h

theorem hexBytes_hexText (l : List UInt8) : hexBytes (hexText l) = some l := by
  induction l with
  | nil => rfl
  | cons b t ih =>
      have hb := UInt8.toNat_lt b
      have hhi : hexDigitValue (Nat.digitChar (b.toNat / 16)) = some (b.toNat / 16) :=
        hexDigitValue_digitChar (by omega)
      have hlo : hexDigitValue (Nat.digitChar (b.toNat % 16)) = some (b.toNat % 16) :=
        hexDigitValue_digitChar (by omega)
      have hbyte : UInt8.ofNat (16 * (b.toNat / 16) + b.toNat % 16) = b := by
        rw [Nat.div_add_mod, UInt8.ofNat_toNat]
      rw [hexText, hexBytes, hhi, hlo, ih]
      exact congrArg (fun a => some (a :: t)) hbyte

/-- Digits in pairs stand for the same number as their bytes. -/
theorem hexBytes_of_hexNumber {s : List Char} {n : ℕ} (h : hexNumber s = some n)
    (heven : s.length % 2 = 0) :
    ∃ l, hexBytes s = some l ∧ beValue l = n ∧ 2 * l.length = s.length := by
  induction s using hexBytes.induct generalizing n with
  | case1 =>
      cases h
      exact ⟨[], rfl, rfl, rfl⟩
  | case2 c => simp at heven
  | case3 a b t ih =>
      simp only [hexNumber, Option.bind_eq_bind, Option.bind_eq_some_iff, Option.some.injEq] at h
      rcases h with ⟨hi, hhi, _, ⟨lo, hlo, v, hv, rfl⟩, rfl⟩
      have heven' : t.length % 2 = 0 := by
        simp only [List.length_cons] at heven
        omega
      rcases ih hv heven' with ⟨l, hl, hval, hlen⟩
      refine ⟨UInt8.ofNat (16 * hi + lo) :: l, ?_, ?_, ?_⟩
      · simp [hexBytes, hhi, hlo, hl]
      · have h1 := hexDigitValue_lt hhi
        have h2 := hexDigitValue_lt hlo
        have hbyte : (UInt8.ofNat (16 * hi + lo)).toNat = 16 * hi + lo := by
          rw [UInt8.toNat_ofNat']
          exact Nat.mod_eq_of_lt (by omega)
        -- Each byte takes the place of two digits.
        have hpow : (256 : ℕ) ^ l.length = 16 ^ t.length := by
          rw [← hlen, pow_mul]
          norm_num
        rw [beValue, hbyte, hval, hpow, List.length_cons, pow_succ]
        ring
      · simp only [List.length_cons]
        omega

/-- Only digits can be read as bytes. -/
theorem hexNumber_of_hexBytes {s : List Char} {l : List UInt8} (h : hexBytes s = some l) :
    hexNumber s = some (beValue l) ∧ s.length = 2 * l.length := by
  induction s using hexBytes.induct generalizing l with
  | case1 =>
      cases h
      exact ⟨rfl, rfl⟩
  | case2 c => cases h
  | case3 a b t ih =>
      simp only [hexBytes, Option.bind_eq_bind, Option.bind_eq_some_iff, Option.some.injEq] at h
      rcases h with ⟨hi, hhi, lo, hlo, r, hr, rfl⟩
      rcases ih hr with ⟨hnum, hlen⟩
      have h1 := hexDigitValue_lt hhi
      have h2 := hexDigitValue_lt hlo
      have hbyte : (UInt8.ofNat (16 * hi + lo)).toNat = 16 * hi + lo := by
        rw [UInt8.toNat_ofNat']
        exact Nat.mod_eq_of_lt (by omega)
      have hpow : (16 : ℕ) ^ t.length = 256 ^ r.length := by
        rw [hlen, pow_mul]
        norm_num
      refine ⟨?_, by simp only [List.length_cons]; omega⟩
      simp only [hexNumber, hhi, hlo, hnum, Option.bind_eq_bind, Option.bind_some,
        Option.some.injEq, List.length_cons, beValue, hbyte, ← hpow, pow_succ]
      ring

theorem hexNumber_append {s t : List Char} {m n : ℕ} (hs : hexNumber s = some m)
    (ht : hexNumber t = some n) : hexNumber (s ++ t) = some (m * 16 ^ t.length + n) := by
  induction s generalizing m with
  | nil =>
      cases hs
      simpa using ht
  | cons c s ih =>
      simp only [hexNumber, Option.bind_eq_bind, Option.bind_eq_some_iff, Option.some.injEq] at hs
      rcases hs with ⟨d, hd, v, hv, rfl⟩
      simp only [List.cons_append, hexNumber, hd, ih hv, Option.bind_eq_bind, Option.bind_some,
        Option.some.injEq, List.length_append, pow_add]
      ring

/-- The base-16 digits of a number stand for it. -/
theorem hexNumber_toDigits (n : ℕ) : hexNumber (Nat.toDigits 16 n) = some n := by
  induction n using Nat.strong_induction_on with
  | _ n ih =>
      rcases Nat.lt_or_ge n 16 with h | h
      · rw [Nat.toDigits_of_lt_base h]
        simp [hexNumber, hexDigitValue_digitChar h]
      · rw [Nat.toDigits_of_base_le (by norm_num) h]
        -- The last digit is a text of its own behind those of `n / 16`.
        have hmod : n % 16 < 16 := Nat.mod_lt _ (by norm_num)
        have hlast : hexNumber [Nat.digitChar (n % 16)] = some (n % 16) := by
          simp [hexNumber, hexDigitValue_digitChar hmod]
        have := hexNumber_append (ih (n / 16) (by omega)) hlast
        simpa [Nat.div_add_mod'] using this

theorem hexDigitValue_isSome_of_isDigit {c : Char} (h : c.isDigit = true) :
    (hexDigitValue c).isSome = true := by
  simp [hexDigitValue, h]

/-- Any digits stand for a number. -/
theorem exists_hexNumber {s : List Char} (h : ∀ c ∈ s, (hexDigitValue c).isSome = true) :
    ∃ n, hexNumber s = some n := by
  induction s with
  | nil => exact ⟨0, rfl⟩
  | cons c t ih =>
      rcases Option.isSome_iff_exists.1 (h c List.mem_cons_self) with ⟨d, hd⟩
      rcases ih fun a ha => h a (List.mem_cons_of_mem c ha) with ⟨v, hv⟩
      exact ⟨d * 16 ^ t.length + v, by simp [hexNumber, hd, hv]⟩

/-- A character that is no digit spoils the text. -/
theorem hexBytes_eq_none {s : List Char} {c : Char} (hc : c ∈ s) (h : hexDigitValue c = none) :
    hexBytes s = none := by
  induction s using hexBytes.induct with
  | case1 => cases hc
  | case2 a => rfl
  | case3 a b t ih =>
      simp only [List.mem_cons] at hc
      rcases hc with rfl | rfl | hc
      · simp [hexBytes, h]
      · simp [hexBytes, h]
      · simp [hexBytes, ih hc]

end Foundation
end RainFloat
