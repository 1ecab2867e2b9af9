import Mathlib.Data.List.Basic

/-!
# Automaton — sequences read by a step that may refuse

A step leads from a state and a symbol to the next state, or refuses the symbol.  `follow` repeats
it along a sequence.

* `of_follow`: a property of states and the rest to be read, proved step by step from the end;
* `follow_flatMap`: symbols that are spelled in smaller ones are read as their spellings are.
-/

namespace RainFloat
namespace Foundation

variable {σ α β : Type}

/-- The state after a sequence of symbols. -/
def follow (step : σ → α → Option σ) (p : σ) (s : List α) : Option σ :=
  s.foldlM step p

section Follow

variable {step : σ → α → Option σ} {p q : σ} {s : List α} {c : α}

@[simp] theorem follow_nil : follow step p [] = some p :=
  rfl

@[simp] theorem follow_cons : follow step p (c :: s) = (step p c).bind fun q => follow step q s :=
  rfl

theorem follow_append (s t : List α) :
    follow step p (s ++ t) = (follow step p s).bind fun q => follow step q t :=
  List.foldlM_append

/-- A symbol that no state accepts is never read. -/
theorem follow_eq_none_of_mem (hc : c ∈ s) (h : ∀ p, step p c = none) : follow step p s = none := by
  induction s generalizing p with
  | nil => cases hc
  | cons a t ih =>
      rw [follow_cons]
      rcases List.mem_cons.1 hc with rfl | ht
      · rw [h]
        rfl
      · cases step p a with
        | none => rfl
        | some q => exact ih ht

/-- Symbols that all lead to the same state, which they do not leave again. -/
theorem follow_of_idempotent {f : σ → σ} (hf : ∀ p, f (f p) = f p)
    (h : ∀ c ∈ s, ∀ p, step p c = some (f p)) (hne : s ≠ []) : follow step p s = some (f p) := by
  induction s generalizing p with
  | nil => exact absurd rfl hne
  | cons c t ih =>
      rw [follow_cons, h c List.mem_cons_self, Option.bind_some]
      by_cases ht : t = []
      · rw [ht, follow_nil]
      · rw [ih (fun a ha => h a (List.mem_cons_of_mem c ha)) ht, hf]

/-- What holds of the end, and of a state and a rest whenever it holds after one more symbol, holds
of every state and the sequence read from it. -/
theorem of_follow {P : σ → List α → Prop}
    (hstep : ∀ {p q c s}, step p c = some q → P q s → P p (c :: s)) (h : follow step p s = some q)
    (hend : P q []) : P p s := by
  induction s generalizing p with
  | nil =>
      cases h
      exact hend
  | cons c t ih =>
      rw [follow_cons, Option.bind_eq_some_iff] at h
      rcases h with ⟨r, hr, hrest⟩
      exact hstep hr (ih hrest)

/-- Whatever is read passes every test that the symbols of accepting steps pass. -/
theorem forall_mem_of_follow {P : α → Prop} (hstep : ∀ {p q c}, step p c = some q → P c)
    (h : follow step p s = some q) : ∀ c ∈ s, P c := by
  refine of_follow (P := fun _ s => ∀ c ∈ s, P c) ?_ h (by simp)
  intro p q c s hc hs a ha
  rcases List.mem_cons.1 ha with rfl | ha
  · exact hstep hc
  · exact hs a ha

end Follow

/-- Symbols that lead where their spellings lead are read as these are. -/
theorem follow_flatMap {step : σ → α → Option σ} {advance : σ → β → Option σ} {text : β → List α}
    {ts : List β} (h : ∀ t ∈ ts, ∀ p, follow step p (text t) = advance p t) (p : σ) :
    follow step p (ts.flatMap text) = follow advance p ts := by
  induction ts generalizing p with
  | nil => rfl
  | cons t ts ih =>
      have hrest : ∀ q, follow step q (ts.flatMap text) = follow advance q ts :=
        ih fun u hu => h u (List.mem_cons_of_mem t hu)
      rw [List.flatMap_cons, follow_append, h t List.mem_cons_self, follow_cons]
      exact congrArg _ (funext hrest)

end Foundation
end RainFloat
