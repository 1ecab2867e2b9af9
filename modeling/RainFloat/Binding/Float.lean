import RainFloat.Binding.Evm
import RainFloat.Foundation.DecimalText

/-!
# Float — text and hex forms of a Float

`HexLibrary` stands for the hex functions the binding calls, `HexLibrary.Documented` for what they
are documented to do.
-/

namespace RainFloat
namespace Binding

open Foundation Reference

/-- A Float is its 32 bytes. -/
abbrev Float : Type := B256

/-! ## Hex -/

/-- `alloy::hex` and the hex functions of `B256`.  `left_padding_from` may panic, but it has no way
to report an error. -/
structure HexLibrary where
  encodePrefixed : B256 → Text
  decode : Text → Except Text Bytes
  fromHex : Text → Except Text B256
  leftPaddingFrom : Bytes → Exec B256

/-- A text without the prefix hex decoding ignores. -/
def stripHexPrefix : Text → Text
  | '0' :: 'x' :: t => t
  | t => t

/-- The prefix sets hex text apart from decimal text. -/
theorem not_isLiteral_of_hexPrefix (t : Text) : ¬ IsLiteral ('0' :: 'x' :: t) := by
  have hscan : scan ('0' :: 'x' :: t) = none := rfl
  rw [isLiteral_iff, hscan]
  decide

/-- What the hex functions are documented to do.  Padding is only described for at most 32 bytes. -/
structure HexLibrary.Documented (lib : HexLibrary) : Prop where
  encodePrefixed : ∀ b, ∃ t, lib.encodePrefixed b = '0' :: 'x' :: t ∧ hexBytes t = some b.bytes
  decode_ok : ∀ s l, hexBytes (stripHexPrefix s) = some l → lib.decode s = .ok l
  decode_error : ∀ s, hexBytes (stripHexPrefix s) = none → ∃ e, lib.decode s = .error e
  fromHex_ok : ∀ s b, hexBytes (stripHexPrefix s) = some b.bytes → lib.fromHex s = .ok b
  fromHex_error : ∀ s, (∀ b : B256, hexBytes (stripHexPrefix s) ≠ some b.bytes) →
    ∃ e, lib.fromHex s = .error e
  leftPaddingFrom : ∀ l, l.length ≤ 32 →
    ∃ b, lib.leftPaddingFrom l = .ok b ∧ b.bytes = List.replicate (32 - l.length) 0 ++ l

namespace Float

/-- `Float::as_hex` -/
def asHex (lib : HexLibrary) (f : Float) : Text :=
  lib.encodePrefixed f

/-- `Float::from_hex` -/
def fromHex (lib : HexLibrary) (hex : Text) : Except FloatError Float :=
  match lib.fromHex hex with
  | .ok bytes => .ok bytes
  | .error _ => .error (.invalidHex hex)

/-! ## Decimal text -/

/-- `Float::parse` -/
def parse (contract : Contract) (str : Text) : Except FloatError Float :=
  executeCall contract (contract.parse str) fun (errorSelector, parsedFloat) =>
    if errorSelector ≠ 0 then
      .error (.decimalFloatSelector (DecimalFloatErrorSelector.tryFrom errorSelector))
    else
      .ok parsedFloat

/-- `Float::format_with_scientific` -/
def formatWithScientific (contract : Contract) (a : Float) (scientific : Bool) :
    Except FloatError Text :=
  executeCall contract (contract.format a scientific) fun decoded => .ok decoded

end Float

/-! ## What the hex functions give -/

/-- Every failure to read hex reports the text. -/
theorem Float.fromHex_eq_ok_or_invalidHex (lib : HexLibrary) (s : Text) :
    (∃ b, Float.fromHex lib s = .ok b) ∨ Float.fromHex lib s = .error (.invalidHex s) := by
  unfold Float.fromHex
  cases lib.fromHex s with
  | ok b => exact Or.inl ⟨b, rfl⟩
  | error e => exact Or.inr rfl

namespace HexLibrary.Documented

variable {lib : HexLibrary}

/-- What a text is read as: a Float exactly for 64 digits behind an optional prefix. -/
theorem fromHex_iff (h : lib.Documented) (s : Text) (b : B256) :
    Float.fromHex lib s = .ok b ↔ hexBytes (stripHexPrefix s) = some b.bytes := by
  constructor
  · intro hok
    -- The library succeeds on 32 bytes and fails otherwise, so the case split decides `hok`.
    by_cases hread : ∃ c : B256, hexBytes (stripHexPrefix s) = some c.bytes
    · rcases hread with ⟨c, hc⟩
      rw [Float.fromHex, h.fromHex_ok s c hc] at hok
      cases hok
      exact hc
    · rcases h.fromHex_error s (not_exists.1 hread) with ⟨e, he⟩
      rw [Float.fromHex, he] at hok
      cases hok
  · intro hread
    rw [Float.fromHex, h.fromHex_ok s b hread]

theorem fromHex_asHex (h : lib.Documented) (f : Float) :
    Float.fromHex lib (f.asHex lib) = .ok f := by
  rcases h.encodePrefixed f with ⟨t, ht, hread⟩
  rw [h.fromHex_iff, Float.asHex, ht]
  exact hread

end HexLibrary.Documented

/-! ## A hex library -/

def decodeHex (s : Text) : Except Text Bytes :=
  match hexBytes (stripHexPrefix s) with
  | some l => .ok l
  | none => .error "invalid hex".toList

def b256OfBytes (l : Bytes) : Except Text B256 :=
  if h : l.length = 32 then .ok ⟨l, h⟩ else .error "invalid string length".toList

def padLeft (l : Bytes) : Exec B256 :=
  if h : l.length ≤ 32 then
    .ok ⟨List.replicate (32 - l.length) 0 ++ l, by
      rw [List.length_append, List.length_replicate, Nat.sub_add_cancel h]⟩
  else
    .error .assertion

/-- The documented behaviour as functions.  Here padding panics on more than 32 bytes. -/
def hexLibrary : HexLibrary where
  encodePrefixed b := '0' :: 'x' :: hexText b.bytes
  decode := decodeHex
  fromHex s := (decodeHex s).bind b256OfBytes
  leftPaddingFrom := padLeft

theorem decodeHex_of_some {s : Text} {l : Bytes} (h : hexBytes (stripHexPrefix s) = some l) :
    decodeHex s = .ok l := by
  rw [decodeHex, h]

theorem decodeHex_of_none {s : Text} (h : hexBytes (stripHexPrefix s) = none) :
    ∃ e, decodeHex s = .error e := by
  rw [decodeHex, h]
  exact ⟨_, rfl⟩

theorem hexLibrary_documented : hexLibrary.Documented where
  encodePrefixed b := ⟨_, rfl, hexBytes_hexText _⟩
  decode_ok _ _ h := decodeHex_of_some h
  decode_error _ h := decodeHex_of_none h
  fromHex_ok s b h := by
    change (decodeHex s).bind b256OfBytes = _
    rw [decodeHex_of_some h]
    exact dif_pos b.length_eq
  fromHex_error s h := by
    change ∃ e, (decodeHex s).bind b256OfBytes = _
    cases hread : hexBytes (stripHexPrefix s) with
    | none =>
        rcases decodeHex_of_none hread with ⟨e, he⟩
        rw [he]
        exact ⟨e, rfl⟩
    | some l =>
        rw [decodeHex_of_some hread]
        have hlen : ¬ l.length = 32 := fun hlen => h ⟨l, hlen⟩ hread
        exact ⟨_, dif_neg hlen⟩
  leftPaddingFrom _ h := ⟨_, dif_pos h, rfl⟩

end Binding
end RainFloat
