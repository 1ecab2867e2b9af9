import RainFloat.Binding.Evm
import RainFloat.Foundation.BigEndian

/-!
# Reason — the text of a revert

The check of the deployments reports why a network failed.  A failed assertion or cheatcode reverts
with four bytes of selector and an ABI-encoded string, and everything else is shown in hex.

* `decodeString_eq_some_iff`: what `abi.decode` accepts as a string behind the offset word;
* `reasons_readable`: the reason is the string whenever there is one, however it goes on, and
  otherwise the hex text.
-/

namespace RainFloat
namespace Deploy

open Foundation
open Binding (Bytes)

/-! ## ABI-encoded strings -/

/-- A word of the ABI encoding -/
abbrev word (n : ℕ) : Bytes :=
  beBytes 32 n

/-- `abi.encode` of a string: where it starts, how long it is, and its bytes, filled up to whole
words. -/
def encodeString (s : Bytes) : Bytes :=
  word 32 ++ (word s.length ++ (s ++ List.replicate ((32 - s.length % 32) % 32) 0))

/-- `decodeStringExternal`: `abi.decode` of a string, which reverts unless all of it is there. -/
def decodeStringExternal (payload : Bytes) : Option Bytes :=
  if payload.length < 32 then none
  else
    let offset := beValue (payload.take 32)
    if offset ≥ 2 ^ 64 ∨ payload.length ≤ offset + 31 then none
    else
      let length := beValue ((payload.drop offset).take 32)
      if length ≥ 2 ^ 64 ∨ payload.length < offset + 32 + length then none
      else some ((payload.drop (offset + 32)).take length)

/-- The bytes of an error behind its selector, copied one by one. -/
def payloadOf (err : Bytes) : Bytes :=
  (List.range (err.length - 4)).map fun i => err.getD (i + 4) 0

/-- `reasonOf`, with `vm.toString` of bytes as a parameter. -/
def reasonOf (toString : Bytes → Bytes) (err : Bytes) : Bytes :=
  if err.length < 68 then toString err
  else
    let payload := payloadOf err
    -- The offset of a string is always one word.
    if beValue (payload.take 32) ≠ 0x20 then toString err
    else
      match decodeStringExternal payload with
      | some reason => reason
      | none => toString err

/-! ## Decoding -/

theorem payloadOf_eq (err : Bytes) : payloadOf err = err.drop 4 := by
  apply List.ext_getElem
  · rw [payloadOf, List.length_map, List.length_range, List.length_drop]
  · intro i h h'
    rw [List.length_drop] at h'
    have hlt : i + 4 < err.length := by omega
    simp only [payloadOf, List.getElem_map, List.getElem_range, List.getElem_drop, List.getD,
      List.getElem?_eq_getElem hlt, Option.getD_some]
    congr 1
    omega

theorem word_beValue {l : Bytes} (h : l.length = 32) : word (beValue l) = l := by
  rw [word, ← h, beBytes_beValue]

theorem beValue_word {n : ℕ} (h : n < 2 ^ 64) : beValue (word n) = n := by
  apply beValue_beBytes
  calc
    n < 2 ^ 64 := h
    _ < 256 ^ 32 := by norm_num

/-- What `abi.decode` finds behind the offset of one word: a length, and as many bytes. -/
theorem decodeString_eq_some_iff {payload s : Bytes} (hlen : 64 ≤ payload.length)
    (hoffset : beValue (payload.take 32) = 32) :
    decodeStringExternal payload = some s ↔
      s.length < 2 ^ 64 ∧ ∃ rest, payload = word 32 ++ (word s.length ++ (s ++ rest)) := by
  have hdecode : decodeStringExternal payload =
      if beValue ((payload.drop 32).take 32) ≥ 2 ^ 64 ∨
          payload.length < 64 + beValue ((payload.drop 32).take 32) then none
      else some ((payload.drop 64).take (beValue ((payload.drop 32).take 32))) := by
    rw [decodeStringExternal, if_neg (by omega)]
    simp only [hoffset]
    rw [if_neg (by omega)]
  rw [hdecode]
  constructor
  · -- What is accepted starts with the two words, and has the bytes they announce.
    intro h
    generalize hn : beValue ((payload.drop 32).take 32) = n at h
    split at h
    · cases h
    · rename_i hfits
      rw [not_or, not_le, not_lt] at hfits
      cases h
      have hhead : payload.take 32 = word 32 := by
        have hwidth : (payload.take 32).length = 32 := by
          rw [List.length_take]
          omega
        have hword := word_beValue hwidth
        rwa [hoffset, eq_comm] at hword
      have hcount : (payload.drop 32).take 32 = word n := by
        have hwidth : ((payload.drop 32).take 32).length = 32 := by
          rw [List.length_take, List.length_drop]
          omega
        have hword := word_beValue hwidth
        rwa [hn, eq_comm] at hword
      have hlength : ((payload.drop 64).take n).length = n := by
        rw [List.length_take, List.length_drop]
        omega
      rw [hlength]
      refine ⟨hfits.1, payload.drop (64 + n), ?_⟩
      calc
        payload = payload.take 32 ++ payload.drop 32 := (List.take_append_drop 32 payload).symm
        _ = word 32 ++ ((payload.drop 32).take 32 ++ (payload.drop 32).drop 32) := by
          rw [hhead, List.take_append_drop]
        _ = word 32 ++ (word n ++ ((payload.drop 64).take n ++ (payload.drop 64).drop n)) := by
          rw [hcount, List.drop_drop, List.take_append_drop]
        _ = word 32 ++ (word n ++ ((payload.drop 64).take n ++ payload.drop (64 + n))) := by
          rw [List.drop_drop]
  · -- The other way round, each word is read back as the number it was written for.
    rintro ⟨hs, rest, rfl⟩
    have hdrop : (word 32 ++ (word s.length ++ (s ++ rest))).drop 32 =
        word s.length ++ (s ++ rest) := List.drop_left' (length_beBytes 32 32)
    have htake : (word s.length ++ (s ++ rest)).take 32 = word s.length :=
      List.take_left' (length_beBytes 32 s.length)
    have hbody : (word 32 ++ (word s.length ++ (s ++ rest))).drop 64 = s ++ rest := by
      calc
        (word 32 ++ (word s.length ++ (s ++ rest))).drop 64
            = ((word 32 ++ (word s.length ++ (s ++ rest))).drop 32).drop 32 := by
              rw [List.drop_drop]
        _ = s ++ rest := by
              rw [hdrop]
              exact List.drop_left' (length_beBytes 32 s.length)
    rw [hdrop, htake, beValue_word hs, hbody, if_neg, List.take_left' rfl]
    simp only [List.length_append, length_beBytes]
    omega

/-! ## Reasons -/

/-- Behind a selector there is a string, and possibly more. -/
def CarriesString (err s : Bytes) : Prop :=
  s.length < 2 ^ 64 ∧ ∃ selector rest : Bytes, selector.length = 4 ∧
    err = selector ++ (word 32 ++ (word s.length ++ (s ++ rest)))

/-- The bytes behind the selector decide. -/
theorem carriesString_iff {err s : Bytes} (h : 4 ≤ err.length) :
    CarriesString err s ↔
      s.length < 2 ^ 64 ∧ ∃ rest, err.drop 4 = word 32 ++ (word s.length ++ (s ++ rest)) := by
  constructor
  · rintro ⟨hs, selector, rest, hselector, rfl⟩
    exact ⟨hs, rest, List.drop_left' hselector⟩
  · rintro ⟨hs, rest, hrest⟩
    refine ⟨hs, err.take 4, rest, ?_, ?_⟩
    · rw [List.length_take]
      omega
    · rw [← hrest, List.take_append_drop]

theorem CarriesString.length_le {err s : Bytes} (h : CarriesString err s) : 68 ≤ err.length := by
  rcases h with ⟨-, selector, rest, hselector, rfl⟩
  simp only [List.length_append, length_beBytes, hselector]
  omega

theorem CarriesString.offset {err s : Bytes} (h : CarriesString err s) :
    beValue ((err.drop 4).take 32) = 32 := by
  have hlen := h.length_le
  rcases (carriesString_iff (by omega)).1 h with ⟨-, rest, hrest⟩
  rw [hrest, List.take_left' (length_beBytes 32 32)]
  exact beValue_word (by norm_num)

theorem reasonOf_of_carriesString (toString : Bytes → Bytes) {err s : Bytes}
    (h : CarriesString err s) : reasonOf toString err = s := by
  have hlen := h.length_le
  have hdecode : decodeStringExternal (err.drop 4) = some s := by
    rw [decodeString_eq_some_iff _ h.offset]
    · exact (carriesString_iff (by omega)).1 h
    · rw [List.length_drop]
      omega
  rw [reasonOf, if_neg (by omega)]
  simp only [payloadOf_eq]
  rw [if_neg (not_not.2 h.offset), hdecode]

theorem reasonOf_of_not_carriesString (toString : Bytes → Bytes) {err : Bytes}
    (h : ∀ s, ¬ CarriesString err s) : reasonOf toString err = toString err := by
  rw [reasonOf]
  split
  · rfl
  rename_i hlen
  rw [not_lt] at hlen
  simp only [payloadOf_eq]
  split
  · rfl
  rename_i hoffset
  rw [not_not] at hoffset
  -- Behind the two guards the decoder has the last word.
  cases hdecode : decodeStringExternal (err.drop 4) with
  | none => rfl
  | some s =>
      rw [decodeString_eq_some_iff _ hoffset] at hdecode
      · exact absurd ((carriesString_iff (by omega)).2 hdecode) (h s)
      · rw [List.length_drop]
        omega

/-- A revert is shown as the string it carries, whatever its selector and whatever follows, as
`Error(string)` and every cheatcode error do; one that carries none is shown in hex, be it too
short, of another shape, or cut off. -/
theorem reasons_readable (toString : Bytes → Bytes) (err : Bytes) :
    (∀ s, CarriesString err s → reasonOf toString err = s) ∧
    ((∀ s, ¬ CarriesString err s) → reasonOf toString err = toString err) ∧
    (∀ selector s : Bytes, selector.length = 4 → s.length < 2 ^ 64 →
      reasonOf toString (selector ++ encodeString s) = s) ∧
    ∀ selector s cut : Bytes, selector.length = 4 → s.length < 2 ^ 64 → cut.length < s.length →
      reasonOf toString (selector ++ (word 32 ++ (word s.length ++ cut))) =
        toString (selector ++ (word 32 ++ (word s.length ++ cut))) := by
  refine ⟨fun s => reasonOf_of_carriesString toString, reasonOf_of_not_carriesString toString,
    ?_, ?_⟩
  · intro selector s hselector hs
    exact reasonOf_of_carriesString toString ⟨hs, selector, _, hselector, rfl⟩
  · intro selector s cut hselector hs hcut
    apply reasonOf_of_not_carriesString
    rintro t ⟨ht, selector', rest, hselector', heq⟩
    -- Both ways the same length is declared, and there are fewer bytes than that.
    have hpayload := List.append_inj_right heq (hselector.trans hselector'.symm)
    have hbody := List.append_inj (List.append_cancel_left hpayload)
      ((length_beBytes 32 s.length).trans (length_beBytes 32 t.length).symm)
    have hdeclared : s.length = t.length := by
      rw [← beValue_word hs, ← beValue_word ht, hbody.1]
    rw [hbody.2, List.length_append] at hcut
    omega

end Deploy
end RainFloat
