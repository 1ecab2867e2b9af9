import Mathlib.Data.List.Forall2
import Mathlib.Order.Lattice
import Mathlib.Order.Defs.LinearOrder
import Mathlib.Order.OrderDual

/-!
# Extremum — picking one element of a list by its key

`pickBelow key a b` keeps `a` only where its key is strictly below, so on equal keys the later
element wins.  Folding it over a list picks an element of the list, the last one of least key.

* `isLastLeast_foldl`: what is picked;
* `Carries.foldl`: what a relation that carries one key over to another makes of it.
-/

namespace RainFloat
namespace Foundation

variable {α K : Type*} [LinearOrder K]

/-- The element of smaller key, the second one on equal keys. -/
def pickBelow (key : α → K) (a b : α) : α :=
  if key a < key b then a else b

/-- `m` is the last element of least key in `l`. -/
def IsLastLeast (key : α → K) (l : List α) (m : α) : Prop :=
  ∃ before after, l = before ++ m :: after ∧ (∀ y ∈ before, key m ≤ key y) ∧
    ∀ y ∈ after, key m < key y

namespace IsLastLeast

variable {key : α → K} {l : List α} {m : α}

theorem singleton (key : α → K) (a : α) : IsLastLeast key [a] a :=
  ⟨[], [], rfl, by simp, by simp⟩

theorem mem (h : IsLastLeast key l m) : m ∈ l := by
  rcases h with ⟨before, after, rfl, -, -⟩
  simp

theorem le (h : IsLastLeast key l m) {y : α} (hy : y ∈ l) : key m ≤ key y := by
  rcases h with ⟨before, after, rfl, hbefore, hafter⟩
  rw [List.mem_append, List.mem_cons] at hy
  rcases hy with hy | rfl | hy
  · exact hbefore y hy
  · exact le_rfl
  · exact (hafter y hy).le

/-- One more element is compared with the one picked so far. -/
theorem append (h : IsLastLeast key l m) (b : α) :
    IsLastLeast key (l ++ [b]) (pickBelow key m b) := by
  unfold pickBelow
  split
  · rename_i hlt
    rcases h with ⟨before, after, rfl, hbefore, hafter⟩
    refine ⟨before, after ++ [b], by simp, hbefore, ?_⟩
    intro y hy
    rw [List.mem_append, List.mem_singleton] at hy
    rcases hy with hy | rfl
    · exact hafter y hy
    · exact hlt
  · rename_i hge
    rw [not_lt] at hge
    exact ⟨l, [], rfl, fun y hy => hge.trans (h.le hy), by simp⟩

/-- The keys picked from lists with the same elements are equal. -/
theorem key_eq {l' : List α} {m' : α} (h : IsLastLeast key l m) (h' : IsLastLeast key l' m')
    (hmem : ∀ y, y ∈ l ↔ y ∈ l') : key m = key m' :=
  le_antisymm (h.le ((hmem m').2 h'.mem)) (h'.le ((hmem m).1 h.mem))

end IsLastLeast

/-- Folding picks the last element of least key. -/
theorem isLastLeast_foldl (key : α → K) (xs : List α) :
    ∀ {done : List α} {m : α}, IsLastLeast key done m →
      IsLastLeast key (done ++ xs) (xs.foldl (pickBelow key) m) := by
  -- On the rest of the list, whatever has been seen before.
  induction xs with
  | nil =>
      intro done m h
      simpa using h
  | cons x xs ih =>
      intro done m h
      simpa using ih (h.append x)

/-! ## Keys carried over -/

section Carries

variable {β K' : Type*} [LinearOrder K']

/-- On `D` the relation `R` takes the order by `key` to the order by `key'`, and what it relates to
elements of one key is one element. -/
structure Carries (D : α → Prop) (key : α → K) (key' : β → K') (R : α → β → Prop) : Prop where
  le : ∀ {x y u v}, D x → D y → R x u → R y v → key x ≤ key y → key' u ≤ key' v
  eq : ∀ {x y u v}, D x → D y → R x u → R y v → key' u = key' v → u = v

variable {D : α → Prop} {key : α → K} {key' : β → K'} {R : α → β → Prop}

/-- Of related elements it picks related ones. -/
theorem Carries.pick (h : Carries D key key' R) {x y : α} {u v : β} (hx : D x ∧ R x u)
    (hy : D y ∧ R y v) : D (pickBelow key x y) ∧ R (pickBelow key x y) (pickBelow key' u v) := by
  unfold pickBelow
  by_cases hlt : key x < key y
  · rw [if_pos hlt]
    refine ⟨hx.1, ?_⟩
    split
    · exact hx.2
    · rename_i hge
      -- Keys told apart on the one side only
      have hle := h.le hx.1 hy.1 hx.2 hy.2 hlt.le
      rw [← h.eq hx.1 hy.1 hx.2 hy.2 (le_antisymm hle (not_lt.1 hge))]
      exact hx.2
  · rw [if_neg hlt, if_neg (h.le hy.1 hx.1 hy.2 hx.2 (not_lt.1 hlt)).not_gt]
    exact hy

/-- Picking along related lists picks related elements. -/
theorem Carries.foldl (h : Carries D key key' R) {x : α} {u : β} {xs : List α} {us : List β}
    (hx : D x ∧ R x u) (hxs : List.Forall₂ (fun x u => D x ∧ R x u) xs us) :
    R (xs.foldl (pickBelow key) x) (us.foldl (pickBelow key') u) := by
  have hfold := List.rel_foldl (P := fun x u => D x ∧ R x u) (R := fun x u => D x ∧ R x u)
    (fun _ _ hx _ _ hy => h.pick hx hy) hx hxs
  exact hfold.2

end Carries

end Foundation
end RainFloat
