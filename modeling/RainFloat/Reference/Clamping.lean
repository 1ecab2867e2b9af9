import RainFloat.Reference.Canonical
import RainFloat.Reference.Order

/-!
# Clamping — the least and the greatest, before an operation or after

An operation that keeps the order of its operands takes the least of them to the least of its
results, and one that reverses the order to the greatest.  As results are canonical and `min` and
`max` keep an operand as it is, it is the same Float and not only the same value.

* `Follows.keeps`, `Follows.swaps`: an operation that rounds a monotone or an antitone function;
* `clamping_commutes`: the operations.
-/

namespace RainFloat
namespace Reference

open Foundation Dec

/-! ## Monotone operations -/

/-- `F` returns a value. -/
def Gives (F : Dec → Exec (Except RefError Dec)) (x u : Dec) : Prop :=
  F x = .ok (.ok u)

/-- `F` of the operand that `pick` keeps of a list is the result that `pick'` keeps. -/
def Commutes (pick pick' : Dec → Dec → Exec Dec) (F : Dec → Exec (Except RefError Dec)) (x : Dec)
    (xs : List Dec) : Prop :=
  ∀ u us, List.Forall₂ (Gives F) (x :: xs) (u :: us) →
    ∃ m w, xs.foldlM pick x = .ok m ∧ us.foldlM pick' u = .ok w ∧ Gives F m w

/-- The least operand gives the least result, and the greatest the greatest. -/
def Keeps (F : Dec → Exec (Except RefError Dec)) (x : Dec) (xs : List Dec) : Prop :=
  Commutes minRef minRef F x xs ∧ Commutes maxRef maxRef F x xs

/-- The least operand gives the greatest result, and the greatest the least. -/
def Swaps (F : Dec → Exec (Except RefError Dec)) (x : Dec) (xs : List Dec) : Prop :=
  Commutes minRef maxRef F x xs ∧ Commutes maxRef minRef F x xs

/-- `F` rounds `g` on the Floats with values in `D`. -/
structure Follows (D : ℚ → Prop) (g : ℚ → ℚ) (F : Dec → Exec (Except RefError Dec)) : Prop where
  rounds : ∀ x, IsFloat x → D x.val → Meets (fun _ => False) (F x) (Rounds (g x.val))
  canonical : ∀ x, YieldsCanonical (F x)

section Rounding

variable {D : ℚ → Prop} {g : ℚ → ℚ} {F : Dec → Exec (Except RefError Dec)} {x y u v : Dec}

theorem Follows.isFloat (h : Follows D g F) (hx : IsFloat x ∧ D x.val) (hu : Gives F x u) :
    IsFloat u :=
  ((h.rounds x hx.1 hx.2).of_eq_ok hu).2.2.1

/-- Larger exact results make larger results. -/
theorem Follows.le (h : Follows D g F) (hx : IsFloat x ∧ D x.val) (hy : IsFloat y ∧ D y.val)
    (hu : Gives F x u) (hv : Gives F y v) (hle : g x.val ≤ g y.val) : u.val ≤ v.val := by
  have hplace := ((h.rounds x hx.1 hx.2).of_eq_ok hu).place_mono
    ((h.rounds y hy.1 hy.2).of_eq_ok hv) hle
  rw [place, place, WithBot.coe_le_coe, WithTop.coe_le_coe] at hplace
  exact hplace

/-- Results of one value are the same. -/
theorem Follows.eq (h : Follows D g F) (hx : IsFloat x ∧ D x.val) (hy : IsFloat y ∧ D y.val)
    (hu : Gives F x u) (hv : Gives F y v) (hval : u.val = v.val) : u = v :=
  Canonical.unique ((h.canonical x).of_eq_ok hu u rfl) ((h.canonical y).of_eq_ok hv v rfl)
    ⟨h.isFloat hx hu, h.isFloat hy hv, hval⟩

/-- From an order carried over to picks along a list. -/
theorem Follows.commutes {K K' : Type} [LinearOrder K] [LinearOrder K'] {key : Dec → K}
    {key' : Dec → K'} {pick pick' : Dec → Dec → Exec Dec} (h : Follows D g F)
    (hcarries : Carries (fun x => IsFloat x ∧ D x.val) key key' (Gives F))
    (hpick : ∀ {a b : Dec}, IsFloat a → IsFloat b →
      Meets (fun _ => False) (pick a b) (· = pickBelow key a b))
    (hpick' : ∀ {a b : Dec}, IsFloat a → IsFloat b →
      Meets (fun _ => False) (pick' a b) (· = pickBelow key' a b))
    {xs : List Dec} (hxs : ∀ y ∈ x :: xs, IsFloat y ∧ D y.val) : Commutes pick pick' F x xs := by
  intro u us hgives
  have hboth := (List.forall₂_and_left _ _).2 ⟨hxs, hgives⟩
  have hresults : List.Forall₂ (flip fun w y => IsFloat w ∧ Gives F y w) (x :: xs) (u :: us) :=
    hboth.imp fun y w hy => ⟨h.isFloat hy.1 hy.2, hy.2⟩
  have hus := ((List.forall₂_and_left _ _).1 hresults.flip).1
  rw [List.forall_mem_cons] at hxs hus
  rcases List.forall₂_cons.1 hboth with ⟨hx, hrest⟩
  exact ⟨_, _, (meets_foldlM_pick hpick xs hxs.1.1 fun y hy => (hxs.2 y hy).1).eq_ok,
    (meets_foldlM_pick hpick' us hus.1 hus.2).eq_ok, hcarries.foldl hx hrest⟩

theorem Follows.keeps (h : Follows D g F) (hmono : ∀ p q, D p → D q → p ≤ q → g p ≤ g q)
    {xs : List Dec} (hxs : ∀ y ∈ x :: xs, IsFloat y ∧ D y.val) : Keeps F x xs := by
  constructor
  · refine h.commutes ⟨?_, h.eq⟩ meets_minRef meets_minRef hxs
    intro x y u v hx hy hu hv hle
    exact h.le hx hy hu hv (hmono _ _ hx.2 hy.2 hle)
  · refine h.commutes ⟨?_, ?_⟩ meets_maxRef meets_maxRef hxs
    · intro x y u v hx hy hu hv hle
      exact h.le hy hx hv hu (hmono _ _ hy.2 hx.2 hle)
    · intro x y u v hx hy hu hv heq
      exact h.eq hx hy hu hv (OrderDual.toDual.injective heq)

theorem Follows.swaps (h : Follows D g F) (hanti : ∀ p q, D p → D q → p ≤ q → g q ≤ g p)
    {xs : List Dec} (hxs : ∀ y ∈ x :: xs, IsFloat y ∧ D y.val) : Swaps F x xs := by
  constructor
  · refine h.commutes ⟨?_, ?_⟩ meets_minRef meets_maxRef hxs
    · intro x y u v hx hy hu hv hle
      exact h.le hy hx hv hu (hanti _ _ hx.2 hy.2 hle)
    · intro x y u v hx hy hu hv heq
      exact h.eq hx hy hu hv (OrderDual.toDual.injective heq)
  · refine h.commutes ⟨?_, h.eq⟩ meets_maxRef meets_minRef hxs
    intro x y u v hx hy hu hv hle
    exact h.le hx hy hu hv (hanti _ _ hy.2 hx.2 hle)

end Rounding

/-! ## The operations -/

theorem rounds_of_yields {q : ℚ} {r : Except RefError Dec}
    (h : ∃ v, r = .ok v ∧ IsFloat v ∧ v.val = q) : Rounds q r := by
  rcases h with ⟨v, rfl, hv, rfl⟩
  exact ⟨not_beyondExtremes_of_mem hv.val_mem, id, hv, TruncatesTo.of_mem hv.val_mem⟩

section Operations

variable {c : Dec}

theorem follows_add_right (hc : IsFloat c) :
    Follows (fun _ => True) (fun q => q + c.val) (fun x => add x c) :=
  ⟨fun _ hx _ => meets_add hx.isOperand hc.isOperand, fun x => yieldsCanonical_add x c⟩

theorem follows_add_left (hc : IsFloat c) :
    Follows (fun _ => True) (fun q => c.val + q) (fun x => add c x) :=
  ⟨fun _ hx _ => meets_add hc.isOperand hx.isOperand, fun x => yieldsCanonical_add c x⟩

theorem follows_sub_right (hc : IsFloat c) :
    Follows (fun _ => True) (fun q => q - c.val) (fun x => sub x c) :=
  ⟨fun _ hx _ => meets_sub hx hc, fun x => yieldsCanonical_add x c.neg⟩

theorem follows_sub_left (hc : IsFloat c) :
    Follows (fun _ => True) (fun q => c.val - q) (fun x => sub c x) :=
  ⟨fun _ hx _ => meets_sub hc hx, fun x => yieldsCanonical_add c x.neg⟩

theorem follows_mul_right (hc : IsFloat c) :
    Follows (fun _ => True) (fun q => q * c.val) (fun x => mul x c) :=
  ⟨fun _ hx _ => meets_mul hx hc, fun x => yieldsCanonical_of_mem_outcomes (a := x) (b := c)
    (by simp [outcomes])⟩

theorem follows_mul_left (hc : IsFloat c) :
    Follows (fun _ => True) (fun q => c.val * q) (fun x => mul c x) :=
  ⟨fun _ hx _ => meets_mul hc hx, fun x => yieldsCanonical_of_mem_outcomes (a := c) (b := x)
    (by simp [outcomes])⟩

theorem follows_div_right (hc : IsFloat c) (h0 : c.c ≠ 0) :
    Follows (fun _ => True) (fun q => q / c.val) (fun x => div x c) :=
  ⟨fun _ hx _ => meets_div hx hc h0, fun x => yieldsCanonical_div x c⟩

theorem follows_div_left (hc : IsFloat c) :
    Follows (fun q => 0 < q) (fun q => c.val / q) (fun x => div c x) :=
  ⟨fun _ hx hpos => meets_div hc hx (val_pos_iff.1 hpos).ne', fun x => yieldsCanonical_div c x⟩

theorem follows_minus : Follows (fun _ => True) (fun q => -q) minus :=
  ⟨fun _ hx _ => meets_minus_rounds hx, fun x => yieldsCanonical_arithmetic x.neg⟩

theorem follows_integer : Follows (fun _ => True) (fun q => (towardZero q : ℤ)) integer :=
  ⟨fun _ hx _ => (meets_integer hx).mono fun _ => rounds_of_yields,
    fun x => yieldsCanonical_of_mem_outcomes (a := x) (b := x) (by simp [outcomes])⟩

theorem follows_floor : Follows (fun _ => True) (fun q => (⌊q⌋ : ℤ)) floor :=
  ⟨fun _ hx _ => (meets_floor hx).mono fun _ => rounds_of_yields, fun x => yieldsCanonical_floor x⟩

end Operations

/-- `min` and `max` of a list of Floats commute with the operations that are monotone or antitone,
down to the representation of the result.  Where an operation returns a value on each of them, it
takes the least to the least of its values, or to the greatest if it reverses the order. -/
theorem clamping_commutes (c x : Dec) (xs : List Dec) (hc : IsFloat c)
    (h : ∀ y ∈ x :: xs, IsFloat y) :
    (∀ F ∈ [fun y => add y c, fun y => add c y, fun y => sub y c, integer, floor],
      Keeps F x xs) ∧
    (∀ F ∈ [fun y => sub c y, minus], Swaps F x xs) ∧
    (0 ≤ c.val → ∀ F ∈ [fun y => mul y c, fun y => mul c y], Keeps F x xs) ∧
    (c.val ≤ 0 → ∀ F ∈ [fun y => mul y c, fun y => mul c y], Swaps F x xs) ∧
    (0 < c.val → Keeps (fun y => div y c) x xs) ∧
    (c.val < 0 → Swaps (fun y => div y c) x xs) ∧
    (0 ≤ c.val → (∀ y ∈ x :: xs, 0 < y.val) → Swaps (fun y => div c y) x xs) ∧
    (c.val ≤ 0 → (∀ y ∈ x :: xs, 0 < y.val) → Keeps (fun y => div c y) x xs) := by
  have hall : ∀ y ∈ x :: xs, IsFloat y ∧ True := fun y hy => ⟨h y hy, trivial⟩
  refine ⟨?_, ?_, ?_, ?_, ?_, ?_, ?_, ?_⟩
  · rw [List.forall_mem_cons, List.forall_mem_cons, List.forall_mem_cons, List.forall_mem_cons,
      List.forall_mem_singleton]
    refine ⟨(follows_add_right hc).keeps ?_ hall, (follows_add_left hc).keeps ?_ hall,
      (follows_sub_right hc).keeps ?_ hall, follows_integer.keeps ?_ hall,
      follows_floor.keeps ?_ hall⟩
    · intro p q _ _ hle
      exact add_le_add_left hle c.val
    · intro p q _ _ hle
      exact add_le_add_right hle c.val
    · intro p q _ _ hle
      exact sub_le_sub_right hle c.val
    · intro p q _ _ hle
      exact_mod_cast towardZero_mono hle
    · intro p q _ _ hle
      exact_mod_cast Int.floor_le_floor hle
  · rw [List.forall_mem_cons, List.forall_mem_singleton]
    refine ⟨(follows_sub_left hc).swaps ?_ hall, follows_minus.swaps ?_ hall⟩
    · intro p q _ _ hle
      exact sub_le_sub_left hle c.val
    · intro p q _ _ hle
      exact neg_le_neg hle
  · intro h0
    rw [List.forall_mem_cons, List.forall_mem_singleton]
    refine ⟨(follows_mul_right hc).keeps ?_ hall, (follows_mul_left hc).keeps ?_ hall⟩
    · intro p q _ _ hle
      exact mul_le_mul_of_nonneg_right hle h0
    · intro p q _ _ hle
      exact mul_le_mul_of_nonneg_left hle h0
  · intro h0
    rw [List.forall_mem_cons, List.forall_mem_singleton]
    refine ⟨(follows_mul_right hc).swaps ?_ hall, (follows_mul_left hc).swaps ?_ hall⟩
    · intro p q _ _ hle
      exact mul_le_mul_of_nonpos_right hle h0
    · intro p q _ _ hle
      exact mul_le_mul_of_nonpos_left hle h0
  · intro h0
    refine (follows_div_right hc (val_pos_iff.1 h0).ne').keeps ?_ hall
    intro p q _ _ hle
    exact div_le_div_of_nonneg_right hle h0.le
  · intro h0
    refine (follows_div_right hc (val_neg_iff.1 h0).ne).swaps ?_ hall
    intro p q _ _ hle
    exact div_le_div_of_nonpos_of_le h0.le hle
  · intro h0 hpos
    refine (follows_div_left hc).swaps ?_ fun y hy => ⟨h y hy, hpos y hy⟩
    intro p q hp hq hle
    exact div_le_div_of_nonneg_left h0 hp hle
  · intro h0 hpos
    refine (follows_div_left hc).keeps ?_ fun y hy => ⟨h y hy, hpos y hy⟩
    intro p q hp hq hle
    have hneg := div_le_div_of_nonneg_left (neg_nonneg.2 h0) hp hle
    rwa [neg_div, neg_div, neg_le_neg_iff] at hneg

/-- Between 3.5 and -7, downwards and times -2. -/
theorem clamping_commutes_minus_two :
    Keeps floor ⟨35, -1⟩ [⟨-7, 0⟩] ∧ Swaps (fun y => mul y ⟨-2, 0⟩) ⟨35, -1⟩ [⟨-7, 0⟩] := by
  have hc : IsFloat ⟨-2, 0⟩ := ⟨by decide, by decide, by decide⟩
  have h : ∀ y ∈ [(⟨35, -1⟩ : Dec), ⟨-7, 0⟩], IsFloat y := by
    rw [List.forall_mem_cons, List.forall_mem_singleton]
    exact ⟨⟨by decide, by decide, by decide⟩, ⟨by decide, by decide, by decide⟩⟩
  have hneg : (⟨-2, 0⟩ : Dec).val ≤ 0 := (val_neg_iff.2 (by decide)).le
  have hcommutes := clamping_commutes ⟨-2, 0⟩ ⟨35, -1⟩ [⟨-7, 0⟩] hc h
  refine ⟨hcommutes.1 floor ?_, hcommutes.2.2.2.1 hneg _ ?_⟩
  · simp
  · simp

end Reference
end RainFloat
