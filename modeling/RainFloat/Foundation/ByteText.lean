import Mathlib.Data.List.DropRight
import Mathlib.Logic.Basic

/-!
# ByteText — texts addressed by byte offsets

A text is a list of characters stored as UTF-8.  Offsets count bytes, so an offset inside a
character bounds no slice, and neither does one behind the end.

* `find_append`, `sliceTo_append`, `sliceFrom_append`: what is found at an offset can be cut there;
* `trimMatches`: a text without the blanks around it.
-/

namespace RainFloat
namespace Foundation

/-! ## Slices -/

/-- An offset that bounds no slice. -/
inductive SliceError
  | notCharBoundary
  deriving DecidableEq, Repr

/-- The number of bytes of a text. -/
def byteLength : List Char → Nat
  | [] => 0
  | c :: t => c.utf8Size + byteLength t

/-- The byte offset of the first character that satisfies `p`. -/
def find (p : Char → Bool) : List Char → Option Nat
  | [] => none
  | c :: t => if p c then some 0 else (find p t).map (c.utf8Size + ·)

/-- The text before and behind a byte offset. -/
def splitAtByte : List Char → Nat → Except SliceError (List Char × List Char)
  | s, 0 => pure ([], s)
  | [], _ + 1 => throw .notCharBoundary
  | c :: t, i + 1 =>
    if c.utf8Size ≤ i + 1 then
      (splitAtByte t (i + 1 - c.utf8Size)).map fun r => (c :: r.1, r.2)
    else
      throw .notCharBoundary

/-- `&s[..i]` -/
def sliceTo (s : List Char) (i : Nat) : Except SliceError (List Char) :=
  (splitAtByte s i).map Prod.fst

/-- `&s[i..]` -/
def sliceFrom (s : List Char) (i : Nat) : Except SliceError (List Char) :=
  (splitAtByte s i).map Prod.snd

theorem splitAtByte_append (l r : List Char) :
    splitAtByte (l ++ r) (byteLength l) = .ok (l, r) := by
  induction l with
  | nil => cases r <;> rfl
  | cons c t ih =>
      have hpos := c.utf8Size_pos
      obtain ⟨k, hk⟩ : ∃ k, byteLength (c :: t) = k + 1 := ⟨_, by
        rw [byteLength]
        exact (Nat.sub_add_cancel (by omega)).symm⟩
      have hrest : k + 1 - c.utf8Size = byteLength t := by
        rw [← hk, byteLength, Nat.add_sub_cancel_left]
      have hle : c.utf8Size ≤ k + 1 := by
        rw [← hk, byteLength]
        exact Nat.le_add_right _ _
      rw [hk, List.cons_append, splitAtByte, if_pos hle, hrest, ih]
      rfl

theorem sliceTo_append (l r : List Char) : sliceTo (l ++ r) (byteLength l) = .ok l := by
  rw [sliceTo, splitAtByte_append]
  rfl

theorem sliceFrom_append (l r : List Char) : sliceFrom (l ++ r) (byteLength l) = .ok r := by
  rw [sliceFrom, splitAtByte_append]
  rfl

theorem byteLength_append (l r : List Char) :
    byteLength (l ++ r) = byteLength l + byteLength r := by
  induction l with
  | nil => simp [byteLength]
  | cons c t ih => simp [byteLength, ih, Nat.add_assoc]

/-- The offset behind a character of one byte is one more than its own. -/
theorem sliceFrom_append_cons (l : List Char) {c : Char} (r : List Char) (hc : c.utf8Size = 1) :
    sliceFrom (l ++ c :: r) (byteLength l + 1) = .ok r := by
  have hlen : byteLength (l ++ [c]) = byteLength l + 1 := by
    simp [byteLength_append, byteLength, hc]
  have hcut := sliceFrom_append (l ++ [c]) r
  rwa [hlen, List.append_assoc] at hcut

theorem find_append {p : Char → Bool} {l r : List Char} {c : Char}
    (hl : ∀ a ∈ l, p a = false) (hc : p c = true) : find p (l ++ c :: r) = some (byteLength l) := by
  induction l with
  | nil => simp [find, hc, byteLength]
  | cons a t ih =>
      have ha : p a = false := hl a (by simp)
      have ht : ∀ b ∈ t, p b = false := fun b hb => hl b (by simp [hb])
      simp [find, ha, ih ht, byteLength]

theorem find_eq_none {p : Char → Bool} {l : List Char} (hl : ∀ a ∈ l, p a = false) :
    find p l = none := by
  induction l with
  | nil => rfl
  | cons a t ih =>
      have ha : p a = false := hl a (by simp)
      have ht : ∀ b ∈ t, p b = false := fun b hb => hl b (by simp [hb])
      simp [find, ha, ih ht]

/-- The second byte of a character of two bytes bounds no slice. -/
example : sliceTo ['é', '1'] 1 = .error .notCharBoundary ∧ sliceTo ['é', '1'] 2 = .ok ['é'] := by
  decide

/-- A text either avoids `p` or has a first character that satisfies it. -/
theorem forall_or_exists_first (p : Char → Bool) (s : List Char) :
    (∀ a ∈ s, p a = false) ∨
      ∃ l c r, s = l ++ c :: r ∧ (∀ a ∈ l, p a = false) ∧ p c = true := by
  induction s with
  | nil => exact Or.inl (by simp)
  | cons a t ih =>
      cases ha : p a with
      | true => exact Or.inr ⟨[], a, t, rfl, by simp, ha⟩
      | false =>
          rcases ih with h | ⟨l, c, r, rfl, hl, hc⟩
          · exact Or.inl (by simpa [ha] using h)
          · exact Or.inr ⟨a :: l, c, r, rfl, by simpa [ha] using hl, hc⟩

/-! ## Trimming -/

/-- `str::trim_matches` -/
def trimMatches (p : Char → Bool) (s : List Char) : List Char :=
  (s.dropWhile p).rdropWhile p

section Trim

variable {p : Char → Bool} {s : List Char}

/-- A text is what trimming leaves, with blanks on both sides. -/
theorem exists_trimMatches (p : Char → Bool) (s : List Char) :
    ∃ l u, s = l ++ (trimMatches p s ++ u) ∧ (∀ c ∈ l, p c = true) ∧ ∀ c ∈ u, p c = true := by
  refine ⟨s.takeWhile p, (s.dropWhile p).rtakeWhile p, ?_, ?_, ?_⟩
  · rw [trimMatches, List.rdropWhile_append_rtakeWhile, List.takeWhile_append_dropWhile]
  · exact fun c hc => List.mem_takeWhile_imp hc
  · exact fun c hc => List.mem_rtakeWhile_imp hc

/-- The blanks around a text without any are taken off. -/
theorem trimMatches_append {l t u : List Char} (hl : ∀ c ∈ l, p c = true)
    (ht : ∀ c ∈ t, p c = false) (hu : ∀ c ∈ u, p c = true) :
    trimMatches p (l ++ (t ++ u)) = t := by
  -- Behind the blanks in front, dropping stops at the first character of `t` or at the end.
  have hself : ∀ s : List Char, (∀ c ∈ s, p c = false) → s.dropWhile p = s := by
    intro s hs
    cases s with
    | nil => rfl
    | cons a s => rw [List.dropWhile_cons_of_neg (by simp [hs a])]
  have hfront : ∃ v, (l ++ (t ++ u)).dropWhile p = t ++ v ∧ ∀ c ∈ v, p c = true := by
    rw [List.dropWhile_append_of_pos hl]
    cases t with
    | nil =>
        refine ⟨[], ?_, by simp⟩
        simpa [List.dropWhile_eq_nil_iff] using hu
    | cons a t =>
        refine ⟨u, ?_, hu⟩
        rw [List.cons_append, List.dropWhile_cons_of_neg (by simp [ht a])]
  rcases hfront with ⟨v, hv, hblank⟩
  have hblank' : ∀ c ∈ v.reverse, p c = true := by simpa using hblank
  have ht' : ∀ c ∈ t.reverse, p c = false := by simpa using ht
  rw [trimMatches, hv, List.rdropWhile, List.reverse_append, List.dropWhile_append_of_pos hblank',
    hself _ ht', List.reverse_reverse]

theorem trimMatches_eq_self (h : ∀ c ∈ s, p c = false) : trimMatches p s = s := by
  simpa using trimMatches_append (l := []) (u := []) (by simp) h (by simp)

end Trim

end Foundation
end RainFloat
