import Mathlib.Logic.Basic

/-!
# CheckedRun — postconditions for computations that may stop early

A computation in `Except ε` either returns a value or stops with an error.  `Meets T m Q` says
that `m` returns a value satisfying `Q`, or stops with an error that `T` tolerates.

Three tolerances are used over and over:

* `T = fun _ => False`: `m` returns, and its value satisfies `Q` (total correctness);
* `T = (· = e)`: the only way for `m` to stop is the error `e` (correctness up to `e`);
* `T = fun _ => True`: if `m` returns, its value satisfies `Q` (partial correctness).

Stating a specification lemma for an arbitrary `T` gives both readings from one proof.
-/

namespace RainFloat
namespace Foundation

variable {ε α β γ : Type}

/-- `m` returns a value satisfying `Q`, or stops with an error tolerated by `T`. -/
def Meets (T : ε → Prop) (m : Except ε α) (Q : α → Prop) : Prop :=
  match m with
  | .ok a => Q a
  | .error e => T e

namespace Meets

variable {T : ε → Prop} {m : Except ε α} {Q R : α → Prop}

/-! ## Structural rules -/

@[simp] theorem ok_iff {a : α} : Meets T (.ok a) Q ↔ Q a :=
  Iff.rfl

@[simp] theorem pure_iff {a : α} : Meets T (pure a) Q ↔ Q a :=
  Iff.rfl

@[simp] theorem error_iff {e : ε} : Meets T (.error e) Q ↔ T e :=
  Iff.rfl

@[simp] theorem throw_iff {e : ε} : Meets T (throw e) Q ↔ T e :=
  Iff.rfl

/-- Consequence rule: weaken the postcondition. -/
theorem mono (h : Meets T m Q) (hQR : ∀ a, Q a → R a) : Meets T m R := by
  cases m with
  | error e => exact h
  | ok a => exact hQR a h

/-- Sequencing rule. -/
theorem bind {f : α → Except ε β} {P : β → Prop}
    (h : Meets T m Q) (hf : ∀ a, Q a → Meets T (f a) P) : Meets T (m >>= f) P := by
  cases m with
  | error e => exact h
  | ok a => exact hf a h

/-- Sequencing after a step whose value is known exactly. -/
theorem bind_eq {a : α} {f : α → Except ε β} {P : β → Prop}
    (h : Meets T m (· = a)) (hf : Meets T (f a) P) : Meets T (m >>= f) P :=
  h.bind (by rintro b rfl; exact hf)

/-- Two postconditions of the same run. -/
theorem and (h : Meets T m Q) (h' : Meets T m R) : Meets T m fun a => Q a ∧ R a := by
  cases m with
  | error e => exact h
  | ok a => exact ⟨h, h'⟩

/-- With everything tolerated, what comes last in a run decides. -/
theorem bind_last {f : α → Except ε β} {P : β → Prop}
    (hf : ∀ a, Meets (fun _ => True) (f a) P) : Meets (fun _ => True) (m >>= f) P := by
  cases m with
  | error e => exact trivial
  | ok a => exact hf a

/-! ## Reading a specification back -/

/-- With nothing tolerated, the run returns. -/
theorem returns (h : Meets (fun _ => False) m Q) : ∃ a, m = .ok a ∧ Q a := by
  cases m with
  | error e => exact h.elim
  | ok a => exact ⟨a, rfl, h⟩

/-- With nothing tolerated and the value pinned down, the run is that value. -/
theorem eq_ok {a : α} (h : Meets (fun _ => False) m (· = a)) : m = .ok a := by
  rcases h.returns with ⟨b, hb, rfl⟩
  exact hb

/-- With one error tolerated, the run stops with it or returns. -/
theorem stops_or_returns {e : ε} (h : Meets (· = e) m Q) :
    m = .error e ∨ ∃ a, m = .ok a ∧ Q a := by
  cases m with
  | error e' => exact Or.inl (congrArg _ h)
  | ok a => exact Or.inr ⟨a, rfl, h⟩

/-- A value that was returned satisfies the postcondition. -/
theorem of_eq_ok {a : α} (h : Meets T m Q) (hm : m = .ok a) : Q a := by
  simpa [hm] using h

/-! ## Loops -/

/-- Invariant rule for a loop over a list: `I` relates the elements already consumed to the
accumulator, and one step of the body carries it over one more element. -/
theorem foldlM {body : β → γ → Except ε β} (I : List γ → β → Prop)
    (hstep : ∀ done x acc, I done acc → Meets T (body acc x) (I (done ++ [x]))) :
    ∀ (xs done : List γ) (acc : β), I done acc →
      Meets T (xs.foldlM body acc) (I (done ++ xs)) := by
  -- On the rest of the list, for any consumed prefix.
  intro xs
  induction xs with
  | nil =>
      intro done acc hI
      simpa using hI
  | cons x xs ih =>
      intro done acc hI
      rw [List.foldlM_cons]
      refine (hstep done x acc hI).bind ?_
      intro acc' hI'
      simpa using ih (done ++ [x]) acc' hI'

end Meets

end Foundation
end RainFloat
