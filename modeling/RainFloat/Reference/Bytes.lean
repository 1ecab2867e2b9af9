import RainFloat.Foundation.BigEndian
import RainFloat.Reference.Rounding

/-!
# Bytes — the packed layout of a Float

A Float is 32 bytes: the int32 exponent in the high 4 bytes, the int224 coefficient in the low 28.
Any 32 bytes are a Float, and the same value has many representations.
-/

namespace RainFloat
namespace Reference

open Foundation Dec

/-- `alloy::primitives::B256` -/
@[ext]
structure B256 where
  bytes : List UInt8
  length_eq : bytes.length = 32
  deriving DecidableEq

namespace B256

/-- The big-endian unsigned value of the bytes. -/
def value (b : B256) : ℕ :=
  beValue b.bytes

def ofNat (n : ℕ) : B256 :=
  ⟨beBytes 32 n, length_beBytes 32 n⟩

theorem value_lt (b : B256) : b.value < 2 ^ 256 := by
  have := beValue_lt b.bytes
  rw [b.length_eq] at this
  calc
    b.value < 256 ^ 32 := this
    _ = 2 ^ 256 := by norm_num

theorem value_ofNat {n : ℕ} (h : n < 2 ^ 256) : (ofNat n).value = n :=
  beValue_beBytes (h.trans_eq (by norm_num))

theorem value_injective {a b : B256} (h : a.value = b.value) : a = b :=
  B256.ext (beValue_injective (by rw [a.length_eq, b.length_eq]) h)

theorem ofNat_value (b : B256) : ofNat b.value = b :=
  value_injective (value_ofNat b.value_lt)

end B256

/-- `Dec::from_bytes` -/
def fromBytes (f : B256) : Dec :=
  ⟨signedValue (f.bytes.drop 4), signedValue (f.bytes.take 4)⟩

/-- `BigInt::to_signed_bytes_be` -/
def toSignedBytesBe (c : Int) : List UInt8 :=
  minimalSignedBytes c

/-- The bytes stand for the coefficient, and no other bytes that do are fewer. -/
theorem toSignedBytesBe_shortest (c : Int) :
    signedValue (toSignedBytesBe c) = c ∧
      ∀ l, l ≠ [] → signedValue l = c → (toSignedBytesBe c).length ≤ l.length := by
  refine ⟨signedValue_minimalSignedBytes c, ?_⟩
  rintro l hl rfl
  exact length_minimalSignedBytes_le hl

/-- `i32::try_from` -/
def i32TryFrom (e : Int) : Option Int :=
  if i32Min ≤ e ∧ e ≤ i32Max then some e else none

/-- `Dec::to_bytes` -/
def toBytes (x : Dec) : Exec B256 := do
  assert (fitsInt224 x.c)
  let e ← unwrap (i32TryFrom x.e)
  let c := toSignedBytesBe x.c
  let fill : UInt8 := if x.isNegative then 0xff else 0
  -- Slicing stops where the coefficient does not fit behind the exponent.
  if h : c.length ≤ 28 then
    pure ⟨signedBytes 4 e ++ (List.replicate (28 - c.length) fill ++ c), by
      rw [List.length_append, List.length_append, List.length_replicate, length_signedBytes,
        Nat.sub_add_cancel h]⟩
  else
    throw .assertion

/-- The bytes that hold a coefficient and an exponent. -/
def layout (x : Dec) : B256 :=
  ⟨signedBytes 4 x.e ++ signedBytes 28 x.c, by simp⟩

/-- Any 32 bytes decode to a Float. -/
theorem isFloat_fromBytes (f : B256) : IsFloat (fromBytes f) := by
  have hc := signedValue_bounds (f.bytes.drop 4)
  have he := signedValue_bounds (f.bytes.take 4)
  rw [List.length_drop, f.length_eq] at hc
  rw [List.length_take, f.length_eq] at he
  norm_num at hc he
  refine ⟨?_, ?_, ?_⟩
  · rw [fitsInt224_iff]
    unfold int224Min int224Max
    dsimp only [fromBytes]
    omega
  · unfold i32Min
    dsimp only [fromBytes]
    omega
  · unfold i32Max
    dsimp only [fromBytes]
    omega

theorem fromBytes_layout {x : Dec} (h : IsFloat x) : fromBytes (layout x) = x := by
  have hc := fitsInt224_iff.1 h.coefficient
  have h1 := h.exponent_ge
  have h2 := h.exponent_le
  unfold int224Min int224Max at hc
  unfold i32Min at h1
  unfold i32Max at h2
  -- The two parts are cut apart where they were joined.
  have htake : (layout x).bytes.take 4 = signedBytes 4 x.e :=
    List.take_left' (length_signedBytes 4 x.e)
  have hdrop : (layout x).bytes.drop 4 = signedBytes 28 x.c :=
    List.drop_left' (length_signedBytes 4 x.e)
  have hexp : signedValue (signedBytes 4 x.e) = x.e :=
    signedValue_signedBytes (by norm_num; omega) (by norm_num; omega)
  have hcoeff : signedValue (signedBytes 28 x.c) = x.c :=
    signedValue_signedBytes (by norm_num; omega) (by norm_num; omega)
  rw [fromBytes, htake, hdrop, hexp, hcoeff]

theorem layout_fromBytes (b : B256) : layout (fromBytes b) = b := by
  have htake : (b.bytes.take 4).length = 4 := by
    rw [List.length_take, b.length_eq]
    norm_num
  have hdrop : (b.bytes.drop 4).length = 28 := by
    rw [List.length_drop, b.length_eq]
  have hexp := signedBytes_signedValue (b.bytes.take 4)
  have hcoeff := signedBytes_signedValue (b.bytes.drop 4)
  rw [htake] at hexp
  rw [hdrop] at hcoeff
  ext1
  dsimp only [layout, fromBytes]
  rw [hexp, hcoeff, List.take_append_drop]

/-! ## Writing the layout -/

/-- An int224 takes 28 bytes at most. -/
theorem signedWidth_le_of_fits {c : ℤ} (h : fitsInt224 c = true) : signedWidth c ≤ 28 := by
  rw [fitsInt224_iff] at h
  unfold int224Min int224Max at h
  refine signedWidth_le_iff.2 ⟨?_, ?_⟩
  · norm_num
    omega
  · norm_num
    omega

/-- A Float passes both assertions, and its bytes are the layout. -/
theorem toBytes_eq_layout {x : Dec} (h : IsFloat x) : toBytes x = .ok (layout x) := by
  have hwidth := signedWidth_le_of_fits h.coefficient
  have hlen : (toSignedBytesBe x.c).length ≤ 28 := by
    rwa [toSignedBytesBe, minimalSignedBytes, length_signedBytes]
  have hfill : (if x.isNegative then 0xff else 0 : UInt8) = signByte x.c := by
    simp [signByte]
  have hassert : assert (fitsInt224 x.c = true) = .ok () := if_pos h.coefficient
  have he : unwrap (i32TryFrom x.e) = .ok x.e := by
    rw [i32TryFrom, if_pos ⟨h.exponent_ge, h.exponent_le⟩]
    rfl
  unfold toBytes
  rw [hassert, he]
  change (if h : (toSignedBytesBe x.c).length ≤ 28 then _ else _) = _
  rw [dif_pos hlen]
  congr 1
  ext1
  dsimp only [layout]
  rw [hfill, toSignedBytesBe, replicate_append_minimalSignedBytes hwidth]

/-- What the assertions let through is a Float. -/
theorem isFloat_of_toBytes {x : Dec} {b : B256} (h : toBytes x = .ok b) : IsFloat x := by
  by_cases hc : fitsInt224 x.c = true
  · by_cases he : i32Min ≤ x.e ∧ x.e ≤ i32Max
    · exact ⟨hc, he.1, he.2⟩
    · rw [toBytes, assert, if_pos hc, i32TryFrom, if_neg he] at h
      cases h
  · rw [toBytes, assert, if_neg hc] at h
    cases h

/-- Writing inverts reading, wherever it succeeds. -/
theorem toBytes_eq_ok_iff {x : Dec} {b : B256} : toBytes x = .ok b ↔ fromBytes b = x := by
  constructor
  · intro h
    have hx := isFloat_of_toBytes h
    rw [toBytes_eq_layout hx] at h
    rw [← Except.ok.inj h, fromBytes_layout hx]
  · rintro rfl
    rw [toBytes_eq_layout (isFloat_fromBytes b), layout_fromBytes]

end Reference
end RainFloat
