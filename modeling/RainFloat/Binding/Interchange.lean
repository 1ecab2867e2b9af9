import RainFloat.Binding.ReferenceConcrete
import RainFloat.Binding.Simulation

/-!
# Interchange — concretes that pass the checks are interchangeable

What the comparisons of single calls are worth for the programs that use Floats: whatever a client
computes, with however many calls, each chosen after seeing the replies to the others, it sees what
the reference says, and it cannot tell two such contracts or two representations of its inputs
apart.
-/

namespace RainFloat
namespace Binding

open Foundation Reference

section Sessions

variable {selector : String → UInt32} {contract : FloatContract}

/-- The session of a client that starts out with some Floats. -/
def crateSession (contract : FloatContract) (client : Client FloatCall Reply) (floats : List Float)
    (n : ℕ) : Session Reply Float :=
  Session.run (crateAnswers contract) client n ⟨[], floats⟩

/-- The same session, with the reference in place of the binding. -/
def refSession (selector : String → UInt32) (client : Client FloatCall Reply) (decs : List Dec)
    (n : ℕ) : Session Reply Dec :=
  Session.run (refAnswers selector) client n ⟨[], decs⟩

/-- Sessions that start from Floats and what they stand for stay together. -/
theorem related_sessions (h : contract.PassesChecks selector) (client : Client FloatCall Reply)
    {floats : List Float} {decs : List Dec} (hstart : List.Forall₂ StandsFor floats decs) (n : ℕ) :
    (crateSession contract client floats n).Related StandsFor
      (refSession selector client decs n) :=
  h.simulated.run client n ⟨rfl, hstart⟩

/-- No call of a session panics or fails in a way the reference does not know. -/
theorem replies_avoid (h : contract.PassesChecks selector) (client : Client FloatCall Reply)
    {floats : List Float} {decs : List Dec} (hstart : List.Forall₂ StandsFor floats decs) (n : ℕ) :
    Reply.failure ∉ (crateSession contract client floats n).replies ∧
      Reply.panic ∉ (crateSession contract client floats n).replies := by
  constructor
  · -- The reference has no such reply, and the replies are the same.
    intro hmem
    rw [(related_sessions h client hstart n).replies] at hmem
    exact Session.forall_replies_run (P := (· ≠ .failure)) (refAnswers_avoid_failure selector)
      client n (by simp) _ hmem rfl
  · intro hmem
    exact Session.forall_replies_run (P := (· ≠ .panic)) (crateAnswers_avoid_panic contract)
      client n (by simp) _ hmem rfl

end Sessions

/-- A client of the binding that makes the calls of `FloatCall` sees what it would see of the
reference, after any number of them, and the Floats it holds have the values the reference computes.
Nothing it calls panics or fails other than by an error of the contract or a rejected literal. -/
theorem sessions_follow_reference (selector : String → UInt32) (contract : FloatContract)
    (h : contract.PassesChecks selector) (client : Client FloatCall Reply) (floats : List Float)
    (n : ℕ) :
    (crateSession contract client floats n).replies =
      (refSession selector client (floats.map fromBytes) n).replies ∧
    List.Forall₂ (fun b x => IsFloat x ∧ (fromBytes b).val = x.val)
      (crateSession contract client floats n).objects
      (refSession selector client (floats.map fromBytes) n).objects ∧
    Reply.failure ∉ (crateSession contract client floats n).replies ∧
    Reply.panic ∉ (refSession selector client (floats.map fromBytes) n).replies := by
  have hstart : List.Forall₂ StandsFor floats (floats.map fromBytes) :=
    (forall₂_fromBytes floats).imp fun b x hx => hx ▸ SameFloat.refl (isFloat_fromBytes b)
  have hrelated := related_sessions h client hstart n
  have havoid := replies_avoid h client hstart n
  refine ⟨hrelated.replies, hrelated.objects.imp fun b x hbx => ⟨hbx.right, hbx.val⟩, havoid.1, ?_⟩
  rw [← hrelated.replies]
  exact havoid.2

/-- Two contracts that pass the checks are interchangeable, as far as the calls of `FloatCall` go: a
client that starts from Floats of the same values, in whatever representations, gets the same
replies from both, and the Floats it ends up with have the same values. -/
theorem concretes_interchangeable (selector : String → UInt32) (contract contract' : FloatContract)
    (h : contract.PassesChecks selector) (h' : contract'.PassesChecks selector)
    (client : Client FloatCall Reply) (floats floats' : List Float)
    (hfloats : List.Forall₂ (fun b b' => (fromBytes b).val = (fromBytes b').val) floats floats')
    (n : ℕ) :
    (crateSession contract client floats n).replies =
      (crateSession contract' client floats' n).replies ∧
    List.Forall₂ (fun b b' => (fromBytes b).val = (fromBytes b').val)
      (crateSession contract client floats n).objects
      (crateSession contract' client floats' n).objects := by
  -- Both follow the reference from what the first Floats stand for.
  have hstart : List.Forall₂ StandsFor floats (floats.map fromBytes) :=
    (forall₂_fromBytes floats).imp fun b x hx => hx ▸ SameFloat.refl (isFloat_fromBytes b)
  have hstart' : List.Forall₂ StandsFor floats' (floats.map fromBytes) := by
    rw [List.forall₂_map_right_iff]
    exact hfloats.flip.imp fun b' b hb =>
      ⟨isFloat_fromBytes b', isFloat_fromBytes b, hb.symm⟩
  -- Both sessions follow the one session with the reference.
  have hrelated := related_sessions h client hstart n
  have hrelated' := related_sessions h' client hstart' n
  refine ⟨hrelated.replies.trans hrelated'.replies.symm, ?_⟩
  refine forall₂_comp (P := flip StandsFor) ?_ hrelated.objects hrelated'.objects.flip
  intro b x b' hb hb'
  exact hb.val.trans hb'.val.symm

/-! ## A client -/

/-- Adds its first Float to itself until an addition fails, then asks for the text. -/
def doublingClient : Client FloatCall Reply := fun replies =>
  if replies.all (· = .float) then some (.binary .add, [replies.length, replies.length])
  else some (.format true, [0])

/-- Doubling from the largest Float, against the reference. -/
theorem sessions_follow_reference_doubling :
    (crateSession (referenceConcrete refSelector) doublingClient [layout maxPositive] 2).replies =
      (refSession refSelector doublingClient [fromBytes (layout maxPositive)] 2).replies :=
  (sessions_follow_reference refSelector (referenceConcrete refSelector)
    (referenceConcrete_passesChecks refSelector) doublingClient [layout maxPositive] 2).1

/-- Doubling from ten, in two representations. -/
theorem concretes_interchangeable_ten :
    (crateSession (referenceConcrete refSelector) doublingClient [layout ⟨10, 0⟩] 5).replies =
      (crateSession (referenceConcrete refSelector) doublingClient [layout ⟨1, 1⟩] 5).replies := by
  have hpasses := referenceConcrete_passesChecks refSelector
  refine (concretes_interchangeable refSelector _ _ hpasses hpasses doublingClient _ _ ?_ 5).1
  have hten : IsFloat ⟨10, 0⟩ := ⟨by decide, by decide, by decide⟩
  have hten' : IsFloat ⟨1, 1⟩ := ⟨by decide, by decide, by decide⟩
  refine List.Forall₂.cons ?_ List.Forall₂.nil
  rw [fromBytes_layout hten, fromBytes_layout hten']
  norm_num [Dec.val]

end Binding
end RainFloat
