import RainFloat.Binding.Clients

/-!
# Simulation — the binding and the reference, call by call and session by session

The tests compare single calls of the binding with the reference on the same bytes.  Results may
come in another representation, so that the next calls are made on other bytes than the reference
would have used.  What carries the comparison over to whole sessions is that the reference cannot
tell representations apart.

* `refAnswers_congr`: calls on Floats of the same values are answered alike;
* `FloatContract.PassesChecks.each_call`: on the same bytes the binding answers as the reference;
* `FloatContract.PassesChecks.simulated`: so sessions with the binding are sessions with the
  reference.
-/

namespace RainFloat
namespace Binding

open Foundation Reference

/-! ## The reference cannot tell representations apart -/

section Congruence

variable {selector : String → UInt32}

theorem sameAnswer_yieldFloat {α β : Type} {R : α → β → Prop} {v : α} {w : β} (h : R v w) :
    SameAnswer R (yieldFloat v) (yieldFloat w) :=
  ⟨rfl, Option.Rel.some h⟩

theorem sameAnswer_showReply {α β γ : Type} {R : α → β → Prop} {reply : γ → Reply} {v w : γ}
    (h : v = w) : SameAnswer R (showReply reply v) (showReply reply w) :=
  ⟨congrArg reply h, Option.Rel.none⟩

/-- Runs that are alike are answers that are alike. -/
theorem sameAnswer_refAnswer {α : Type} {R : α → α → Prop} {m m' : Exec (Except RefError α)}
    {reply : α → Reply × Option Dec} (h : RunAlike R m m')
    (hreply : ∀ v w, R v w → SameAnswer SameFloat (reply v) (reply w)) :
    SameAnswer SameFloat (refAnswer selector m reply) (refAnswer selector m' reply) := by
  rcases h with ⟨r, r', rfl, rfl, halike⟩
  match r, r', halike with
  | .ok v, .ok w, hvw => exact hreply v w hvw
  | .error e, .error f, hef =>
      cases hef
      exact ⟨rfl, Option.Rel.none⟩

/-- A run that is the same on both sides. -/
theorem sameAnswer_of_eq {α : Type} {m m' : Exec (Except RefError α)} {reply : α → Reply}
    (h : m = m') : SameAnswer SameFloat (refAnswer selector m (showReply reply))
      (refAnswer selector m' (showReply reply)) := by
  subst h
  refine ⟨rfl, ?_⟩
  match m with
  | .ok (.ok v) => exact Option.Rel.none
  | .ok (.error e) => exact Option.Rel.none
  | .error p => exact Option.Rel.none

/-- A Float is related to itself. -/
theorem sameAnswer_self {p : Reply × Option Dec} (h : ∀ v, p.2 = some v → IsFloat v) :
    SameAnswer SameFloat p p := by
  refine ⟨rfl, ?_⟩
  match hp : p.2 with
  | none => exact Option.Rel.none
  | some v => exact Option.Rel.some (SameFloat.refl (h v hp))

theorem isFloat_constantRef (c : Constant) : IsFloat (constantRef c) := by
  cases c with
  | maxPositive => exact ⟨by decide, by decide, by decide⟩
  | minPositive => exact ⟨by decide, by decide, by decide⟩
  | maxNegative => exact ⟨by decide, by decide, by decide⟩
  | minNegative => exact ⟨by decide, by decide, by decide⟩
  | zero => exact isFloat_zero

theorem runAlike_unaryRef (op : UnaryCall) {a a' : Dec} (h : SameFloat a a') :
    RunAlike SameFloat (unaryRef op a) (unaryRef op a') := by
  cases op with
  | neg => exact runAlike_minus h
  | abs => exact runAlike_abs h
  | inv => exact runAlike_inv h
  | integer => exact runAlike_integer h
  | frac => exact runAlike_frac h
  | floor => exact runAlike_floor h

theorem runAlike_binaryRef (op : BinaryCall) {a a' b b' : Dec} (ha : SameFloat a a')
    (hb : SameFloat b b') : RunAlike SameFloat (binaryRef op a b) (binaryRef op a' b') := by
  cases op with
  | add => exact runAlike_add ha hb
  | sub => exact runAlike_sub ha hb
  | mul => exact runAlike_mul ha hb
  | div => exact runAlike_div ha hb

theorem runAlike_pickOn (outcome : Ordering) {a a' b b' : Dec} (ha : SameFloat a a')
    (hb : SameFloat b b') :
    RunAlike SameFloat (succeeds (pickOn outcome a b)) (succeeds (pickOn outcome a' b')) := by
  rcases exists_pickOn outcome ha hb with ⟨m, m', hm, hm', hsame⟩
  refine ⟨.ok m, .ok m', ?_, ?_, hsame⟩
  · rw [succeeds, hm]
    rfl
  · rw [succeeds, hm']
    rfl

theorem formatRef_congr (scientific : Bool) {a a' : Dec} (h : SameFloat a a') :
    formatRef scientific a = formatRef scientific a' := by
  rw [formatRef, formatRef, formatScientific_congr h.left h.right h.val,
    formatPlain_congr h.left h.right h.val]

theorem isZero_congr {a a' : Dec} (h : SameFloat a a') : a.isZero = a'.isZero := by
  rw [Bool.eq_iff_iff, isZero_iff, isZero_iff, h.c_eq_zero_iff]

/-! ## What the reference hands out -/

theorem isFloat_of_fromFixedDecimal {v : U256} {d : UInt8} {f : Dec}
    (h : (refAnswer selector (fromFixedDecimalLossless v d) yieldFloat).2 = some f) :
    IsFloat f := by
  rcases (meets_fromFixedDecimalLossless v d).returns with ⟨r, hr, hspec, -⟩
  rw [hr] at h
  match r, h with
  | .ok _, h =>
      cases h
      exact (hspec f rfl).1

theorem isFloat_of_fromFixedDecimalLossy {v : U256} {d : UInt8} {f : Dec}
    (h : (refAnswer selector (succeeds (fromFixedDecimalLossy v d)) yieldLossy).2 = some f) :
    IsFloat f := by
  rcases (meets_fromFixedDecimalLossy v d).returns with ⟨r, hr, hfloat, -⟩
  rw [succeeds, hr] at h
  cases h
  exact hfloat

theorem isFloat_of_parse {l : SafeLiteral} {f : Dec}
    (h : (parseAnswer (parseRef l.1.text)).2 = some f) : IsFloat f := by
  rcases (meets_parseRef_text (Or.inr l.2)).returns with ⟨r, hr, hspec⟩
  rw [hr] at h
  match r, h with
  | .value v, h =>
      cases h
      exact hspec.1

/-- Calls on Floats of the same values are answered alike. -/
theorem refAnswers_congr : Simulates SameFloat (refAnswers selector) (refAnswers selector) := by
  -- Operands of the same values give outcomes alike; the other calls have no operands.
  intro call xs ys h
  cases call with
  | constant c =>
      refine rel_noOperand h (sameAnswer_yieldFloat ?_)
      exact SameFloat.refl (isFloat_constantRef c)
  | unary op =>
      exact rel_oneOperand h fun a a' ha =>
        sameAnswer_refAnswer (runAlike_unaryRef op ha) fun _ _ => sameAnswer_yieldFloat
  | binary op =>
      exact rel_twoOperands h fun a a' b b' ha hb =>
        sameAnswer_refAnswer (runAlike_binaryRef op ha hb) fun _ _ => sameAnswer_yieldFloat
  | compare c =>
      exact rel_twoOperands h fun a a' b b' ha hb =>
        sameAnswer_of_eq (by rw [compareRef_congr c ha hb])
  | min =>
      exact rel_twoOperands h fun a a' b b' ha hb =>
        sameAnswer_refAnswer (runAlike_pickOn .lt ha hb) fun _ _ => sameAnswer_yieldFloat
  | max =>
      exact rel_twoOperands h fun a a' b b' ha hb =>
        sameAnswer_refAnswer (runAlike_pickOn .gt ha hb) fun _ _ => sameAnswer_yieldFloat
  | isZero =>
      exact rel_oneOperand h fun a a' ha => sameAnswer_showReply (isZero_congr ha)
  | fromFixedDecimal v d =>
      exact rel_noOperand h (sameAnswer_self fun f hf => isFloat_of_fromFixedDecimal hf)
  | fromFixedDecimalLossy v d =>
      exact rel_noOperand h (sameAnswer_self fun f hf => isFloat_of_fromFixedDecimalLossy hf)
  | toFixedDecimal d =>
      exact rel_oneOperand h fun a a' ha => sameAnswer_of_eq (toFixedDecimalLossless_congr ha d)
  | toFixedDecimalLossy d =>
      exact rel_oneOperand h fun a a' ha => sameAnswer_of_eq (toFixedDecimalLossy_congr ha d)
  | parse l =>
      exact rel_noOperand h (sameAnswer_self fun f hf => isFloat_of_parse hf)
  | format scientific =>
      exact rel_oneOperand h fun a a' ha => sameAnswer_of_eq (formatRef_congr scientific ha)

end Congruence

/-! ## The binding answers each call as the reference does -/

/-- The bytes of a Float stand for a decimal of its value. -/
abbrev StandsFor (b : Float) (x : Dec) : Prop :=
  SameFloat (fromBytes b) x

section Checked

variable {selector : String → UInt32} {contract : FloatContract}

/-- A comparison that succeeds makes the answers alike. -/
theorem sameAnswer_of_checkWith {α β : Type} {same : α → β → Prop} {got : Except FloatError α}
    {want : Exec (Except RefError β)} {reply : α → Reply × Option Float}
    {reply' : β → Reply × Option Dec} (h : Passes (CheckWith selector same) got want)
    (hreply : ∀ g w, want = .ok (.ok w) → same g w → SameAnswer StandsFor (reply g) (reply' w)) :
    SameAnswer StandsFor (crateAnswer got reply) (refAnswer selector want reply') := by
  rcases h with ⟨r, rfl, hcheck⟩
  -- A client sees no more of a revert than the selector that was compared.
  match got, r, hcheck with
  | .ok g, .ok w, hsame => exact hreply g w rfl hsame
  | .error (.decimalFloat e), .error w, hrevert =>
      exact ⟨congrArg Reply.revert hrevert, Option.Rel.none⟩

theorem sameAnswer_of_checkFloat {got : Except FloatError Float} {want : Exec (Except RefError Dec)}
    (h : Passes (CheckFloat selector) got want) (hwant : Returns want) :
    SameAnswer StandsFor (crateAnswer got yieldFloat) (refAnswer selector want yieldFloat) := by
  refine sameAnswer_of_checkWith h ?_
  intro g w hw hsame
  have hfloat : IsFloat w := hwant.of_eq_ok hw w rfl
  exact sameAnswer_yieldFloat (sameFloat_of_eqValue (isFloat_fromBytes g) hfloat hsame)

theorem sameAnswer_of_check {α : Type} {got : Except FloatError α}
    {want : Exec (Except RefError α)} {reply : α → Reply}
    (h : Passes (Check selector) got want) :
    SameAnswer StandsFor (crateAnswer got (showReply reply))
      (refAnswer selector want (showReply reply)) :=
  sameAnswer_of_checkWith h fun _ _ _ hsame => sameAnswer_showReply hsame

theorem sameAnswer_of_checkParse {l : SafeLiteral} {got : Except FloatError Float}
    (h : Passes CheckParse got (parseRef l.1.text)) :
    SameAnswer StandsFor (crateAnswer got yieldFloat) (parseAnswer (parseRef l.1.text)) := by
  have hfloat := fun f => isFloat_of_parse (l := l) (f := f)
  rcases h with ⟨r, hr, hcheck⟩
  rw [hr] at hfloat ⊢
  match got, r, hcheck with
  | .ok g, .value w, hsame =>
      exact sameAnswer_yieldFloat
        (sameFloat_of_eqValue (isFloat_fromBytes g) (hfloat w rfl) hsame)
  -- Nor more of a rejected literal than the signature of the selector.
  | .error (.decimalFloatSelector (.ok s)), .selector w, hsame =>
      exact ⟨congrArg Reply.rejected hsame, Option.Rel.none⟩

/-- A result that must be exactly the expected one. -/
theorem sameAnswer_of_passes_eq {α : Type} {got : Except FloatError α} {want : Exec α}
    {reply : α → Reply} (h : Passes (fun got want => got = .ok want) got want) :
    SameAnswer StandsFor (crateAnswer got (showReply reply))
      (refAnswer selector (succeeds want) (showReply reply)) := by
  rcases h with ⟨w, rfl, rfl⟩
  exact sameAnswer_showReply rfl

/-- Bytes that must be exactly the expected ones. -/
theorem standsFor_of_hasBytes {got : Except FloatError Float} {want : Dec}
    (h : HasBytes got want) : ∃ b, got = .ok b ∧ StandsFor b want := by
  rcases h with ⟨b, hb, rfl⟩
  refine ⟨b, rfl, ?_⟩
  -- The bytes are those of the expected decimal, so this is a Float.
  have hfloat := isFloat_fromBytes b
  rw [fromBytes_of_toBytes hb] at hfloat
  rw [StandsFor, fromBytes_of_toBytes hb]
  exact SameFloat.refl hfloat

theorem sameAnswer_of_hasBytes {got : Except FloatError Float} {want : Exec Dec}
    (h : Passes HasBytes got want) :
    SameAnswer StandsFor (crateAnswer got yieldFloat)
      (refAnswer selector (succeeds want) yieldFloat) := by
  rcases h with ⟨w, rfl, hbytes⟩
  rcases standsFor_of_hasBytes hbytes with ⟨b, rfl, hb⟩
  exact sameAnswer_yieldFloat hb

theorem FloatContract.PassesChecks.constantCall (h : contract.PassesChecks selector)
    (c : Constant) : HasBytes (Binding.constantCall contract c) (constantRef c) := by
  cases c with
  | maxPositive => exact h.maxPositiveValue
  | minPositive => exact h.minPositiveValue
  | maxNegative => exact h.maxNegativeValue
  | minNegative => exact h.minNegativeValue
  | zero => exact h.zero

theorem FloatContract.PassesChecks.unaryCall (h : contract.PassesChecks selector) (op : UnaryCall)
    (a : Float) :
    Passes (CheckFloat selector) (Binding.unaryCall contract op a) (unaryRef op (fromBytes a)) := by
  cases op with
  | neg => exact h.neg a
  | abs => exact h.abs a
  | inv => exact h.inv a
  | integer => exact h.integer a
  | frac => exact h.frac a
  | floor => exact h.floor a

theorem FloatContract.PassesChecks.binaryCall (h : contract.PassesChecks selector)
    (op : BinaryCall) (a b : Float) :
    Passes (CheckFloat selector) (Binding.binaryCall contract op a b)
      (binaryRef op (fromBytes a) (fromBytes b)) := by
  cases op with
  | add => exact h.add a b
  | sub => exact h.sub a b
  | mul => exact h.mul a b
  | div => exact h.div a b

theorem FloatContract.PassesChecks.compareCall (h : contract.PassesChecks selector)
    (c : Comparison) (a b : Float) :
    Passes (fun got want => got = .ok want) (Binding.compareCall contract c a b)
      (compareRef c (fromBytes a) (fromBytes b)) := by
  cases c with
  | lt => exact h.lt a b
  | gt => exact h.gt a b
  | eq => exact h.eq a b
  | lte => exact h.lte a b
  | gte => exact h.gte a b

theorem returns_unaryRef (op : UnaryCall) {a : Dec} (ha : IsFloat a) : Returns (unaryRef op a) := by
  refine returns_of_mem_outcomes ha ha ?_
  cases op <;> simp [outcomes, unaryRef]

theorem returns_binaryRef (op : BinaryCall) {a b : Dec} (ha : IsFloat a) (hb : IsFloat b) :
    Returns (binaryRef op a b) := by
  refine returns_of_mem_outcomes ha hb ?_
  cases op <;> simp [outcomes, binaryRef]

theorem forall₂_fromBytes (xs : List Float) :
    List.Forall₂ (fun a x => x = fromBytes a) xs (xs.map fromBytes) :=
  List.forall₂_map_right_iff.2 (List.forall₂_same.2 fun _ _ => rfl)

/-- A call on the bytes of Floats is answered as the reference answers it on what they stand for. -/
theorem FloatContract.PassesChecks.each_call (h : contract.PassesChecks selector)
    (call : FloatCall) (xs : List Float) :
    Option.Rel (SameAnswer StandsFor) (crateAnswers contract call xs)
      (refAnswers selector call (xs.map fromBytes)) := by
  -- Each kind of call has its comparison in the tests.
  have hxs := forall₂_fromBytes xs
  cases call with
  | constant c =>
      refine rel_noOperand hxs ?_
      rcases standsFor_of_hasBytes (h.constantCall c) with ⟨b, hb, hstands⟩
      rw [hb]
      exact sameAnswer_yieldFloat hstands
  | unary op =>
      refine rel_oneOperand hxs ?_
      rintro a _ rfl
      exact sameAnswer_of_checkFloat (h.unaryCall op a) (returns_unaryRef op (isFloat_fromBytes a))
  | binary op =>
      refine rel_twoOperands hxs ?_
      rintro a _ b _ rfl rfl
      exact sameAnswer_of_checkFloat (h.binaryCall op a b)
        (returns_binaryRef op (isFloat_fromBytes a) (isFloat_fromBytes b))
  | compare c =>
      refine rel_twoOperands hxs ?_
      rintro a _ b _ rfl rfl
      exact sameAnswer_of_passes_eq (h.compareCall c a b)
  | min =>
      refine rel_twoOperands hxs ?_
      rintro a _ b _ rfl rfl
      exact sameAnswer_of_hasBytes (h.min a b)
  | max =>
      refine rel_twoOperands hxs ?_
      rintro a _ b _ rfl rfl
      exact sameAnswer_of_hasBytes (h.max a b)
  | isZero =>
      refine rel_oneOperand hxs ?_
      rintro a _ rfl
      rw [h.isZero a]
      exact sameAnswer_showReply rfl
  | fromFixedDecimal v d =>
      exact rel_noOperand hxs (sameAnswer_of_checkFloat (h.fromFixedDecimal v d)
        (returns_fromFixedDecimalLossless v d))
  | fromFixedDecimalLossy v d =>
      refine rel_noOperand hxs ?_
      rcases h.fromFixedDecimalLossy v d with ⟨w, hw, g, hg, hsame⟩
      have hfloat := ((meets_fromFixedDecimalLossy v d :
        Meets (fun _ => False) _ _).of_eq_ok hw).1
      rw [hg, hw]
      exact ⟨rfl, Option.Rel.some (sameFloat_of_eqValue (isFloat_fromBytes g) hfloat hsame)⟩
  | toFixedDecimal d =>
      refine rel_oneOperand hxs ?_
      rintro a _ rfl
      exact sameAnswer_of_check (h.toFixedDecimal a d)
  | toFixedDecimalLossy d =>
      refine rel_oneOperand hxs ?_
      rintro a _ rfl
      exact sameAnswer_of_check (h.toFixedDecimalLossy a d)
  | parse l =>
      exact rel_noOperand hxs (sameAnswer_of_checkParse (h.parse l.1 l.2))
  | format scientific =>
      refine rel_oneOperand hxs ?_
      rintro a _ rfl
      cases scientific with
      | true => exact sameAnswer_of_passes_eq (h.formatScientific a)
      | false => exact sameAnswer_of_check (h.formatPlain a)

/-- The binding over a contract that passes the checks is simulated by the reference. -/
theorem FloatContract.PassesChecks.simulated (h : contract.PassesChecks selector) :
    Simulates StandsFor (crateAnswers contract) (refAnswers selector) :=
  Simulates.of_each_call (fun _ _ _ => SameFloat.trans) h.each_call refAnswers_congr

end Checked

/-! ## What the two never reply -/

/-- A reply other than `r` is given. -/
def Avoids (r : Reply) {α : Type} (p : Reply × Option α) : Prop :=
  p.1 ≠ r

theorem crateAnswer_avoids_panic {α : Type} {got : Except FloatError α}
    {reply : α → Reply × Option Float} (h : ∀ v, Avoids .panic (reply v)) :
    Avoids .panic (crateAnswer got reply) := by
  match got with
  | .ok v => exact h v
  | .error (.decimalFloatSelector (.ok _)) | .error (.decimalFloatSelector (.error _))
  | .error (.evm _) | .error (.revert _) | .error (.halt _) | .error (.unexpectedSuccess _)
  | .error (.alloySolTypes _) | .error (.decimalFloat _) | .error .access | .error (.invalidHex _)
  | .error (.alloyFromHexError _) | .error (.jsSysError _) => exact Reply.noConfusion

theorem refAnswer_avoids_failure {α : Type} {selector : String → UInt32}
    {want : Exec (Except RefError α)} {reply : α → Reply × Option Dec}
    (h : ∀ v, Avoids .failure (reply v)) : Avoids .failure (refAnswer selector want reply) := by
  match want with
  | .ok (.ok v) => exact h v
  | .ok (.error _) | .error _ => exact Reply.noConfusion

theorem parseAnswer_avoids_failure (want : Exec ParseRef) : Avoids .failure (parseAnswer want) := by
  match want with
  | .ok (.value _) | .ok (.selector _) | .error _ => exact Reply.noConfusion

/-- The binding returns. -/
theorem crateAnswers_avoid_panic (contract : FloatContract) (call : FloatCall) (xs : List Float)
    (p : Reply × Option Float) (h : crateAnswers contract call xs = some p) : Avoids .panic p := by
  cases call with
  | constant | fromFixedDecimal | fromFixedDecimalLossy | parse =>
      exact of_noOperand (crateAnswer_avoids_panic fun _ => Reply.noConfusion) h
  | unary | isZero | toFixedDecimal | toFixedDecimalLossy | format =>
      exact of_oneOperand (fun _ => crateAnswer_avoids_panic fun _ => Reply.noConfusion) h
  | binary | compare | min | max =>
      exact of_twoOperands (fun _ _ => crateAnswer_avoids_panic fun _ => Reply.noConfusion) h

/-- The reference has no other failures than reverts, rejected literals and panics. -/
theorem refAnswers_avoid_failure (selector : String → UInt32) (call : FloatCall) (xs : List Dec)
    (p : Reply × Option Dec) (h : refAnswers selector call xs = some p) : Avoids .failure p := by
  cases call with
  | constant => exact of_noOperand (Q := Avoids .failure) Reply.noConfusion h
  | isZero => exact of_oneOperand (Q := Avoids .failure) (fun _ => Reply.noConfusion) h
  | parse => exact of_noOperand (parseAnswer_avoids_failure _) h
  | fromFixedDecimal | fromFixedDecimalLossy =>
      exact of_noOperand (refAnswer_avoids_failure fun _ => Reply.noConfusion) h
  | unary | toFixedDecimal | toFixedDecimalLossy | format =>
      exact of_oneOperand (fun _ => refAnswer_avoids_failure fun _ => Reply.noConfusion) h
  | binary | compare | min | max =>
      exact of_twoOperands (fun _ _ => refAnswer_avoids_failure fun _ => Reply.noConfusion) h

end Binding
end RainFloat
