import Mathlib.Data.List.Forall2
import Mathlib.Data.Option.Defs

/-!
# Session — clients of an abstract data type

A client uses objects it cannot look into: it makes calls on handles, sees a reply to each, and
decides from the replies on its next call.  `Answers` is one implementation of the calls.

* `Simulates R`: calls on objects related by `R` get the same reply and yield related objects;
* `Simulates.step`, `Simulates.run`: so do whole sessions, of any client and any length;
* `Simulates.of_each_call`: agreement call by call is enough where the second implementation cannot
  tell related objects apart;
* `Session.forall_replies_run`: what every answer satisfies, every reply of a session does.
-/

namespace RainFloat
namespace Foundation

variable {Call Reply α β γ : Type}

/-- How calls on objects are answered: with a reply and possibly a new object.  `none`: the call is
not one on that many objects. -/
abbrev Answers (Call Reply α : Type) : Type :=
  Call → List α → Option (Reply × Option α)

section Operands

variable {ρ : Type}

/-- A call without operands. -/
def noOperand (r : ρ) : List α → Option ρ
  | [] => some r
  | _ => none

def oneOperand (f : α → ρ) : List α → Option ρ
  | [x] => some (f x)
  | _ => none

def twoOperands (f : α → α → ρ) : List α → Option ρ
  | [x, y] => some (f x y)
  | _ => none

end Operands

/-- A client decides from the replies it has seen on a call and the handles of its operands, or
ends. -/
abbrev Client (Call Reply : Type) : Type :=
  List Reply → Option (Call × List ℕ)

/-- The replies a client has seen and the objects it holds, handles counting from the first. -/
structure Session (Reply α : Type) where
  replies : List Reply
  objects : List α
  deriving DecidableEq

namespace Session

/-- The objects behind handles. -/
def lookup (objects : List α) (handles : List ℕ) : Option (List α) :=
  handles.mapM fun handle => objects[handle]?

/-- Records an answer. -/
def record (s : Session Reply α) (answer : Reply × Option α) : Session Reply α :=
  ⟨s.replies ++ [answer.1], s.objects ++ answer.2.toList⟩

/-- One call.  A session whose client has ended, or asks for what cannot be asked, stays as it
is. -/
def step (answers : Answers Call Reply α) (client : Client Call Reply) (s : Session Reply α) :
    Session Reply α :=
  match client s.replies with
  | none => s
  | some (call, handles) =>
    match (lookup s.objects handles).bind (answers call) with
    | none => s
    | some answer => s.record answer

/-- The session after `n` calls. -/
def run (answers : Answers Call Reply α) (client : Client Call Reply) :
    ℕ → Session Reply α → Session Reply α
  | 0, s => s
  | n + 1, s => run answers client n (s.step answers client)

/-- The same replies, and related objects behind the same handles. -/
structure Related (R : α → β → Prop) (s : Session Reply α) (t : Session Reply β) : Prop where
  replies : s.replies = t.replies
  objects : List.Forall₂ R s.objects t.objects

end Session

/-! ## Simulation -/

/-- Answers with the same reply and related objects, if any. -/
def SameAnswer (R : α → β → Prop) : Reply × Option α → Reply × Option β → Prop :=
  fun p q => p.1 = q.1 ∧ Option.Rel R p.2 q.2

/-- Calls on related objects are answered alike. -/
def Simulates (R : α → β → Prop) (answers : Answers Call Reply α)
    (answers' : Answers Call Reply β) : Prop :=
  ∀ call xs ys, List.Forall₂ R xs ys →
    Option.Rel (SameAnswer R) (answers call xs) (answers' call ys)

theorem forall₂_comp {R : α → β → Prop} {P : β → γ → Prop} {Q : α → γ → Prop}
    (hRP : ∀ x y z, R x y → P y z → Q x z) {xs : List α} {ys : List β} (h : List.Forall₂ R xs ys) :
    ∀ {zs : List γ}, List.Forall₂ P ys zs → List.Forall₂ Q xs zs := by
  induction h with
  | nil =>
      intro zs h'
      cases h'
      exact List.Forall₂.nil
  | cons hxy _ ih =>
      intro zs h'
      cases h' with
      | cons hyz hrest => exact List.Forall₂.cons (hRP _ _ _ hxy hyz) (ih hrest)

/-- Related objects lie behind the same handles. -/
theorem rel_getElem? {R : α → β → Prop} {xs : List α} {ys : List β} (h : List.Forall₂ R xs ys)
    (i : ℕ) : Option.Rel R xs[i]? ys[i]? := by
  induction h generalizing i with
  | nil => exact Option.Rel.none
  | cons hxy hrest ih =>
      cases i with
      | zero => exact Option.Rel.some hxy
      | succ i => simpa using ih i

/-- Two computations in a row: both steps happen on both sides, or the same one fails. -/
theorem rel_bind {δ ε : Type} {R : α → β → Prop} {P : δ → ε → Prop} {o : Option α} {o' : Option β}
    {f : α → Option δ} {f' : β → Option ε} (h : Option.Rel R o o')
    (hf : ∀ x y, R x y → Option.Rel P (f x) (f' y)) : Option.Rel P (o.bind f) (o'.bind f') := by
  cases h with
  | none => exact Option.Rel.none
  | some hxy => exact hf _ _ hxy

theorem rel_lookup {R : α → β → Prop} {xs : List α} {ys : List β} (h : List.Forall₂ R xs ys)
    (handles : List ℕ) :
    Option.Rel (List.Forall₂ R) (Session.lookup xs handles) (Session.lookup ys handles) := by
  induction handles with
  | nil => exact Option.Rel.some List.Forall₂.nil
  | cons i handles ih =>
      unfold Session.lookup at ih ⊢
      rw [List.mapM_cons, List.mapM_cons]
      -- The first handle finds nothing on either side, or related objects.
      refine rel_bind (rel_getElem? h i) ?_
      intro x y hxy
      refine rel_bind ih ?_
      intro xs ys hrest
      exact Option.Rel.some (hrest.cons hxy)

section Operands

variable {ρ σ : Type} {R : α → β → Prop} {P : ρ → σ → Prop} {xs : List α} {ys : List β}

theorem of_noOperand {Q : ρ → Prop} {r p : ρ} (h : Q r) (hp : noOperand r xs = some p) : Q p := by
  match xs, hp with
  | [], hp =>
      cases hp
      exact h

theorem of_oneOperand {Q : ρ → Prop} {f : α → ρ} {p : ρ} (h : ∀ x, Q (f x))
    (hp : oneOperand f xs = some p) : Q p := by
  match xs, hp with
  | [x], hp =>
      cases hp
      exact h x

theorem of_twoOperands {Q : ρ → Prop} {f : α → α → ρ} {p : ρ} (h : ∀ x y, Q (f x y))
    (hp : twoOperands f xs = some p) : Q p := by
  match xs, hp with
  | [x, y], hp =>
      cases hp
      exact h x y

theorem rel_noOperand (h : List.Forall₂ R xs ys) {r : ρ} {s : σ} (hP : P r s) :
    Option.Rel P (noOperand r xs) (noOperand s ys) := by
  cases h with
  | nil => exact Option.Rel.some hP
  | cons _ _ => exact Option.Rel.none

theorem rel_oneOperand (h : List.Forall₂ R xs ys) {f : α → ρ} {g : β → σ}
    (hP : ∀ x y, R x y → P (f x) (g y)) : Option.Rel P (oneOperand f xs) (oneOperand g ys) := by
  cases h with
  | nil => exact Option.Rel.none
  | cons hxy hrest =>
      cases hrest with
      | nil => exact Option.Rel.some (hP _ _ hxy)
      | cons _ _ => exact Option.Rel.none

theorem rel_twoOperands (h : List.Forall₂ R xs ys) {f : α → α → ρ} {g : β → β → σ}
    (hP : ∀ x y x' y', R x y → R x' y' → P (f x x') (g y y')) :
    Option.Rel P (twoOperands f xs) (twoOperands g ys) := by
  cases h with
  | nil => exact Option.Rel.none
  | cons hxy hrest =>
      cases hrest with
      | nil => exact Option.Rel.none
      | cons hxy' hrest' =>
          cases hrest' with
          | nil => exact Option.Rel.some (hP _ _ _ _ hxy hxy')
          | cons _ _ => exact Option.Rel.none

end Operands

theorem rel_trans {R : α → β → Prop} {P : β → γ → Prop} {Q : α → γ → Prop} {o : Option α}
    {o' : Option β} {o'' : Option γ} (hRP : ∀ x y z, R x y → P y z → Q x z)
    (h : Option.Rel R o o') (h' : Option.Rel P o' o'') : Option.Rel Q o o'' := by
  -- An object on one side means one on each.
  cases h with
  | none => cases h' with
    | none => exact Option.Rel.none
  | some hxy => cases h' with
    | some hyz => exact Option.Rel.some (hRP _ _ _ hxy hyz)

theorem Session.Related.record {R : α → β → Prop} {s : Session Reply α} {t : Session Reply β}
    (h : s.Related R t) {p : Reply × Option α} {q : Reply × Option β} (hpq : SameAnswer R p q) :
    (s.record p).Related R (t.record q) := by
  rcases p with ⟨reply, object⟩
  rcases q with ⟨reply', object'⟩
  rcases hpq with ⟨hreply, hobject⟩
  refine ⟨?_, ?_⟩
  · simpa [Session.record, h.replies] using hreply
  · cases hobject with
    | none => simpa [Session.record] using h.objects
    | some hxy => exact List.rel_append h.objects (List.Forall₂.cons hxy List.Forall₂.nil)

namespace Simulates

variable {R : α → β → Prop} {answers : Answers Call Reply α} {answers' : Answers Call Reply β}

/-- One call keeps sessions related. -/
theorem step (h : Simulates R answers answers') (client : Client Call Reply)
    {s : Session Reply α} {t : Session Reply β} (hst : s.Related R t) :
    (s.step answers client).Related R (t.step answers' client) := by
  unfold Session.step
  rw [hst.replies]
  -- Both clients have seen the same replies, so they ask the same thing.
  cases client t.replies with
  | none => exact hst
  | some request =>
      have hanswer := rel_bind (rel_lookup hst.objects request.2) (h request.1)
      dsimp only
      generalize (Session.lookup s.objects request.2).bind (answers request.1) = o at hanswer ⊢
      generalize (Session.lookup t.objects request.2).bind (answers' request.1) = o' at hanswer ⊢
      cases hanswer with
      | none => exact hst
      | some hsame => exact hst.record hsame

/-- Whole sessions stay related, whatever the client does with the replies. -/
theorem run (h : Simulates R answers answers') (client : Client Call Reply) (n : ℕ) :
    ∀ {s : Session Reply α} {t : Session Reply β}, s.Related R t →
      (s.run answers client n).Related R (t.run answers' client n) := by
  induction n with
  | zero =>
      intro s t hst
      exact hst
  | succ n ih =>
      intro s t hst
      exact ih (h.step client hst)

/-- Two implementations that agree on each single call, on objects and their images under `f`,
simulate each other on whole sessions, provided the second cannot tell objects related by `E`
apart. -/
theorem of_each_call {f : α → β} {E : β → β → Prop} (htrans : ∀ x y z, E x y → E y z → E x z)
    (hcall : ∀ call xs, Option.Rel (SameAnswer fun a b => E (f a) b) (answers call xs)
      (answers' call (xs.map f)))
    (hcongr : Simulates E answers' answers') :
    Simulates (fun a b => E (f a) b) answers answers' := by
  intro call xs ys hxs
  have himage : List.Forall₂ E (xs.map f) ys := List.forall₂_map_left_iff.2 hxs
  refine rel_trans ?_ (hcall call xs) (hcongr call _ _ himage)
  -- The first object yielded need not be the image of the other, only related to it.
  rintro p q r ⟨hreply, hobject⟩ ⟨hreply', hobject'⟩
  exact ⟨hreply.trans hreply', rel_trans (fun x y z => htrans (f x) y z) hobject hobject'⟩

end Simulates

/-! ## Replies -/

/-- What every answer of an implementation satisfies, every reply of a session does. -/
theorem Session.forall_replies_run {answers : Answers Call Reply α} {P : Reply → Prop}
    (hanswers : ∀ call xs p, answers call xs = some p → P p.1) (client : Client Call Reply)
    (n : ℕ) : ∀ {s : Session Reply α}, (∀ r ∈ s.replies, P r) →
      ∀ r ∈ (s.run answers client n).replies, P r := by
  induction n with
  | zero =>
      intro s hs
      exact hs
  | succ n ih =>
      intro s hs
      -- A call adds at most its own reply to those seen before.
      refine ih ?_
      unfold Session.step
      split
      · exact hs
      · rename_i call handles hclient
        split
        · exact hs
        · rename_i p hp
          rcases Option.bind_eq_some_iff.1 hp with ⟨xs, -, hxs⟩
          intro r hr
          rcases List.mem_append.1 hr with hr | hr
          · exact hs r hr
          · rw [List.mem_singleton.1 hr]
            exact hanswers call xs p hxs

end Foundation
end RainFloat
