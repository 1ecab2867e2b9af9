import RainFloat.Foundation.Extremum
import RainFloat.Reference.Rounding

/-!
# Comparison — what the comparisons, `min` and `max` must give

The tests read all of them off one call of `cmp_value`.

* `meets_compareRef`: a comparison decides the order of the values;
* `meets_minRef`, `meets_maxRef`: on equal values both keep the second operand;
* `min_max_of_list`: over a list they keep the last of the least and of the greatest values.
-/

namespace RainFloat
namespace Reference

open Foundation Dec

/-! ## The expectations -/

/-- The comparisons of the binding. -/
inductive Comparison
  | lt
  | gt
  | eq
  | lte
  | gte
  deriving DecidableEq, Repr

/-- Whether a comparison holds of operands ordered as `want`. -/
def Comparison.holds : Comparison → Ordering → Bool
  | .lt, want => want = .lt
  | .gt, want => want = .gt
  | .eq, want => want = .eq
  | .lte, want => want ≠ .gt
  | .gte, want => want ≠ .lt

/-- What `check_compare` expects of a comparison. -/
def compareRef (c : Comparison) (a b : Dec) : Exec Bool := do
  let want ← a.cmpValue b
  pure (c.holds want)

/-- The operand kept: the first only where `want` has the given outcome. -/
def pickOn (outcome : Ordering) (a b : Dec) : Exec Dec := do
  let want ← a.cmpValue b
  pure (if want = outcome then a else b)

/-- What `check_compare` expects of `min`. -/
def minRef : Dec → Dec → Exec Dec :=
  pickOn .lt

/-- What `check_compare` expects of `max`. -/
def maxRef : Dec → Dec → Exec Dec :=
  pickOn .gt

/-! ## What they decide -/

/-- The order a comparison stands for. -/
def Comparison.Holds : Comparison → ℚ → ℚ → Prop
  | .lt, p, q => p < q
  | .gt, p, q => q < p
  | .eq, p, q => p = q
  | .lte, p, q => p ≤ q
  | .gte, p, q => q ≤ p

theorem Comparison.holds_compare (c : Comparison) (p q : ℚ) :
    c.holds (compare p q) = true ↔ c.Holds p q := by
  cases c with
  | lt => simp [holds, Holds, compare_lt_iff_lt]
  | gt => simp [holds, Holds, compare_gt_iff_gt]
  | eq => simp [holds, Holds]
  | lte => simp [holds, Holds, compare_gt_iff_gt]
  | gte => simp [holds, Holds, compare_lt_iff_lt]

section Specs

variable {T : Panic → Prop}

theorem meets_compareRef (c : Comparison) {a b : Dec} (ha : IsFloat a) (hb : IsFloat b) :
    Meets T (compareRef c a b) (· = c.holds (compare a.val b.val)) := by
  refine (meets_cmpValue (Or.inr ⟨ha.i64Safe, hb.i64Safe⟩)).bind_eq ?_
  rw [Meets.pure_iff]

theorem meets_pickOn (outcome : Ordering) {a b : Dec} (ha : IsFloat a) (hb : IsFloat b) :
    Meets T (pickOn outcome a b) (· = if compare a.val b.val = outcome then a else b) := by
  refine (meets_cmpValue (Or.inr ⟨ha.i64Safe, hb.i64Safe⟩)).bind_eq ?_
  rw [Meets.pure_iff]

/-- `min` keeps the operand of smaller value, the second one where the values are equal. -/
theorem meets_minRef {a b : Dec} (ha : IsFloat a) (hb : IsFloat b) :
    Meets T (minRef a b) (· = pickBelow val a b) := by
  refine (meets_pickOn .lt ha hb).mono ?_
  rintro _ rfl
  simp only [pickBelow, compare_lt_iff_lt]

/-- `max` keeps the operand of larger value, the second one where the values are equal. -/
theorem meets_maxRef {a b : Dec} (ha : IsFloat a) (hb : IsFloat b) :
    Meets T (maxRef a b) (· = pickBelow (fun x => OrderDual.toDual x.val) a b) := by
  refine (meets_pickOn .gt ha hb).mono ?_
  rintro _ rfl
  simp only [pickBelow, compare_gt_iff_gt, OrderDual.toDual_lt_toDual]

theorem isFloat_pickBelow {K : Type*} [LinearOrder K] (key : Dec → K) {a b : Dec} (ha : IsFloat a)
    (hb : IsFloat b) : IsFloat (pickBelow key a b) := by
  unfold pickBelow
  split
  · exact ha
  · exact hb

/-- A fold of picks over Floats returns, and its result is the fold of the picks. -/
theorem meets_foldlM_pick {K : Type*} [LinearOrder K] {key : Dec → K} {pick : Dec → Dec → Exec Dec}
    (hpick : ∀ {a b : Dec}, IsFloat a → IsFloat b → Meets T (pick a b) (· = pickBelow key a b))
    (xs : List Dec) : ∀ {x : Dec}, IsFloat x → (∀ y ∈ xs, IsFloat y) →
      Meets T (xs.foldlM pick x) (· = xs.foldl (pickBelow key) x) := by
  induction xs with
  | nil =>
      intro x hx hxs
      rfl
  | cons y xs ih =>
      intro x hx hxs
      rw [List.forall_mem_cons] at hxs
      rw [List.foldlM_cons, List.foldl_cons]
      exact (hpick hx hxs.1).bind_eq (ih (isFloat_pickBelow key hx hxs.1) hxs.2)

end Specs

/-- Picking along a list of Floats returns the last one of least key. -/
theorem exists_pick_of_list {K : Type*} [LinearOrder K] {key : Dec → K}
    {pick : Dec → Dec → Exec Dec}
    (hpick : ∀ {a b : Dec}, IsFloat a → IsFloat b →
      Meets (fun _ => False) (pick a b) (· = pickBelow key a b))
    {x : Dec} {xs : List Dec} (h : ∀ y ∈ x :: xs, IsFloat y) :
    ∃ m, xs.foldlM pick x = .ok m ∧ IsLastLeast key (x :: xs) m := by
  rw [List.forall_mem_cons] at h
  refine ⟨_, (meets_foldlM_pick hpick xs h.1 h.2).eq_ok, ?_⟩
  simpa using isLastLeast_foldl key xs (IsLastLeast.singleton key x)

/-- Over a list of Floats `min` and `max` return one of them, as it is: the last of those with the
least value, and the last of those with the greatest.  The order in which the Floats come decides
between representations only, never the value. -/
theorem min_max_of_list (x : Dec) (xs : List Dec) (h : ∀ y ∈ x :: xs, IsFloat y) :
    ∃ m n, xs.foldlM minRef x = .ok m ∧ xs.foldlM maxRef x = .ok n ∧
      (∃ before after, x :: xs = before ++ m :: after ∧ (∀ y ∈ before, m.val ≤ y.val) ∧
        ∀ y ∈ after, m.val < y.val) ∧
      (∃ before after, x :: xs = before ++ n :: after ∧ (∀ y ∈ before, y.val ≤ n.val) ∧
        ∀ y ∈ after, y.val < n.val) ∧
      ∀ y ys, (y :: ys).Perm (x :: xs) → ∃ m' n', ys.foldlM minRef y = .ok m' ∧
        ys.foldlM maxRef y = .ok n' ∧ m'.val = m.val ∧ n'.val = n.val := by
  rcases exists_pick_of_list meets_minRef h with ⟨m, hm, hleast⟩
  rcases exists_pick_of_list meets_maxRef h with ⟨n, hn, hgreatest⟩
  refine ⟨m, n, hm, hn, hleast, hgreatest, ?_⟩
  -- In another order the same keys are picked, if of other Floats.
  intro y ys hperm
  have h' : ∀ z ∈ y :: ys, IsFloat z := fun z hz => h z (hperm.mem_iff.1 hz)
  rcases exists_pick_of_list meets_minRef h' with ⟨m', hm', hleast'⟩
  rcases exists_pick_of_list meets_maxRef h' with ⟨n', hn', hgreatest'⟩
  exact ⟨m', n', hm', hn', hleast'.key_eq hleast fun z => hperm.mem_iff,
    OrderDual.toDual.injective (hgreatest'.key_eq hgreatest fun z => hperm.mem_iff)⟩

/-- Ten and ten again, in another representation. -/
theorem min_max_of_list_ten : ∃ m n, [⟨1, 1⟩].foldlM minRef ⟨10, 0⟩ = .ok m ∧
    [⟨1, 1⟩].foldlM maxRef ⟨10, 0⟩ = .ok n := by
  rcases min_max_of_list ⟨10, 0⟩ [⟨1, 1⟩] (by
    rw [List.forall_mem_cons, List.forall_mem_singleton]
    exact ⟨⟨by decide, by decide, by decide⟩, ⟨by decide, by decide, by decide⟩⟩)
    with ⟨m, n, hm, hn, -⟩
  exact ⟨m, n, hm, hn⟩

end Reference
end RainFloat
