import RainFloat.Binding.Checks

/-!
# ReferenceConcrete — a contract that passes the checks

The reference itself, put behind the interface of the contract: results are laid out in bytes,
errors become reverts with the four bytes of their selector.
-/

namespace RainFloat
namespace Binding

open Foundation Reference

/-! ## Reverts -/

def refErrors : List RefError :=
  [.exponentOverflow, .exponentUnderflow, .divisionByZero, .lossyConversionToFloat,
    .lossyConversionFromFloat, .negativeFixedDecimalConversion, .fixedDecimalOverflow,
    .unformatableExponent]

/-- The selector bytes a revert starts with. -/
def revertOutput : RefError → Bytes
  | .exponentOverflow => [0xd5, 0x56, 0xb1, 0x11]
  | .exponentUnderflow => [0x8e, 0xba, 0x4d, 0x07]
  | .divisionByZero => [0x7a, 0x97, 0x93, 0x0f]
  | .lossyConversionToFloat => [0xc4, 0x71, 0x79, 0x66]
  | .lossyConversionFromFloat => [0x05, 0xe4, 0x76, 0x78]
  | .negativeFixedDecimalConversion => [0x4a, 0x7d, 0x16, 0x6b]
  | .fixedDecimalOverflow => [0xc8, 0x49, 0x48, 0x3b]
  | .unformatableExponent => [0xe4, 0x4c, 0x72, 0xb0]

/-- The selectors of the errors as numbers. -/
def refSelector (text : String) : UInt32 :=
  match refErrors.find? (fun e => signature e = text) with
  | some e => UInt32.ofNat (beValue (revertOutput e))
  | none => 0

def decodeRevert (selector : String → UInt32) (output : Bytes) : Option DecimalFloatErrors :=
  (refErrors.find? fun e => revertOutput e = output).map fun e => ⟨selector (signature e), []⟩

theorem decodeRevert_revertOutput (selector : String → UInt32) (e : RefError) :
    decodeRevert selector (revertOutput e) = some ⟨selector (signature e), []⟩ := by
  cases e <;> rfl

/-! ## The contract -/

/-- The call that comes back with a run of the reference. -/
def comeBack {α β : Type} (encode : α → β) (m : Exec (Except RefError α)) : CallResult β :=
  match m with
  | .ok (.ok v) => .returned (.ok (encode v))
  | .ok (.error e) => .reverted (revertOutput e)
  -- Runs on Floats do not panic.
  | .error _ => .halted "unreachable".toList

/-- The call that comes back with a run of the reference that cannot revert. -/
def comeBackWith {α β : Type} (encode : α → β) (m : Exec α) : CallResult β :=
  match m with
  | .ok v => .returned (.ok (encode v))
  | .error _ => .halted "unreachable".toList

def parseSelector (text : String) : UInt32 :=
  if text = "ExponentOverflow(int256,int256)" then 0xd556b111 else 0x32b8b8be

def encodeParse : ParseRef → UInt32 × B256
  | .value v => (0, layout v)
  | .selector text => (parseSelector text, layout Dec.zero)

/-- The reference behind the interface of the contract. -/
def referenceConcrete (selector : String → UInt32) : FloatContract where
  parse s := comeBackWith encodeParse (parseRef s)
  format a scientific :=
    if scientific then comeBackWith id (formatScientific (fromBytes a))
    else comeBack id (formatPlain (fromBytes a))
  decodeError := decodeRevert selector
  maxPositiveValue := .returned (.ok (layout maxPositive))
  minPositiveValue := .returned (.ok (layout minPositive))
  maxNegativeValue := .returned (.ok (layout maxNegative))
  minNegativeValue := .returned (.ok (layout minNegative))
  zero := .returned (.ok (layout Dec.zero))
  add a b := comeBack layout (Reference.add (fromBytes a) (fromBytes b))
  sub a b := comeBack layout (Reference.sub (fromBytes a) (fromBytes b))
  mul a b := comeBack layout (Reference.mul (fromBytes a) (fromBytes b))
  div a b := comeBack layout (Reference.div (fromBytes a) (fromBytes b))
  minus a := comeBack layout (Reference.minus (fromBytes a))
  abs a := comeBack layout (Reference.abs (fromBytes a))
  inv a := comeBack layout (Reference.inv (fromBytes a))
  eq a b := comeBackWith id (compareRef .eq (fromBytes a) (fromBytes b))
  lt a b := comeBackWith id (compareRef .lt (fromBytes a) (fromBytes b))
  gt a b := comeBackWith id (compareRef .gt (fromBytes a) (fromBytes b))
  lte a b := comeBackWith id (compareRef .lte (fromBytes a) (fromBytes b))
  gte a b := comeBackWith id (compareRef .gte (fromBytes a) (fromBytes b))
  integer a := comeBack layout (Reference.integer (fromBytes a))
  frac a := comeBack layout (Reference.frac (fromBytes a))
  floor a := comeBack layout (Reference.floor (fromBytes a))
  min a b := comeBackWith layout (minRef (fromBytes a) (fromBytes b))
  max a b := comeBackWith layout (maxRef (fromBytes a) (fromBytes b))
  isZero a := .returned (.ok (fromBytes a).isZero)
  fromFixedDecimalLossless v d := comeBack layout (fromFixedDecimalLossless v d)
  toFixedDecimalLossless a d := comeBack id (toFixedDecimalLossless (fromBytes a) d)
  fromFixedDecimalLossy v d :=
    comeBackWith (fun r => (layout r.1, r.2)) (fromFixedDecimalLossy v d)
  toFixedDecimalLossy a d := comeBack id (toFixedDecimalLossy (fromBytes a) d)

/-! ## It passes the checks -/

section Passes

variable {selector : String → UInt32}

theorem isRevert_revertOutput (e : RefError) :
    IsRevert selector (revertError (referenceConcrete selector).toContract (revertOutput e)) e := by
  have hdecode : (referenceConcrete selector).decodeError (revertOutput e) = _ :=
    decodeRevert_revertOutput selector e
  rw [revertError, hdecode]
  rfl

/-- What the contract makes of a run of the reference passes the comparison with that run. -/
theorem passes_comeBack {α β : Type} {same : β → α → Prop} {encode : α → β}
    {m : Exec (Except RefError α)} {P : Except RefError α → Prop}
    (h : Meets (fun _ => False) m P) (hsame : ∀ v, P (.ok v) → same (encode v) v) :
    Passes (CheckWith selector same)
      (callContract (referenceConcrete selector) (comeBack encode m)) m := by
  rcases h.returns with ⟨r, rfl, hr⟩
  refine ⟨r, rfl, ?_⟩
  match r, hr with
  | .ok v, hv => exact hsame v hv
  | .error e, _ => exact isRevert_revertOutput e

theorem eqValue_layout {v : Dec} (h : IsFloat v) : (fromBytes (layout v)).eqValue v = .ok true := by
  rw [fromBytes_layout h]
  rcases (meets_eqValue (Or.inr ⟨h.i64Safe, h.i64Safe⟩)).returns with ⟨b, hb, htrue⟩
  rw [hb, htrue.2 rfl]

theorem passes_float {m : Exec (Except RefError Dec)} (h : Returns m) :
    Passes (CheckFloat selector)
      (callContract (referenceConcrete selector) (comeBack layout m)) m :=
  passes_comeBack h fun v hv => eqValue_layout (hv v rfl)

theorem passes_same {α : Type} {m : Exec (Except RefError α)} {P : Except RefError α → Prop}
    (h : Meets (fun _ => False) m P) :
    Passes (Check selector) (callContract (referenceConcrete selector) (comeBack id m)) m :=
  passes_comeBack h fun _ _ => rfl

theorem passes_ok {α : Type} {m : Exec α} {P : α → Prop} (h : Meets (fun _ => False) m P) :
    Passes (fun got want => got = .ok want)
      (callContract (referenceConcrete selector) (comeBackWith id m)) m := by
  rcases h.returns with ⟨v, rfl, -⟩
  exact ⟨v, rfl, rfl⟩

theorem hasBytes_layout {x : Dec} (h : IsFloat x) :
    HasBytes (callContract (referenceConcrete selector) (.returned (.ok (layout x)))) x :=
  ⟨layout x, toBytes_eq_layout h, rfl⟩

theorem passes_pickOn (outcome : Ordering) {a b : Dec} (ha : IsFloat a) (hb : IsFloat b) :
    Passes HasBytes
      (callContract (referenceConcrete selector) (comeBackWith layout (pickOn outcome a b)))
      (pickOn outcome a b) := by
  rw [(meets_pickOn outcome ha hb).eq_ok]
  refine ⟨_, rfl, hasBytes_layout ?_⟩
  split
  · exact ha
  · exact hb

theorem passes_parse (l : Literal) (h : ReadSafe l) :
    Passes CheckParse (Float.parse (referenceConcrete selector).toContract l.text)
      (parseRef l.text) := by
  rcases (meets_parseRef_text (Or.inr h)).returns with ⟨r, hr, hspec⟩
  have hparse : (referenceConcrete selector).parse l.text = .returned (.ok (encodeParse r)) := by
    change comeBackWith encodeParse (parseRef l.text) = _
    rw [hr]
    rfl
  refine ⟨r, hr, ?_⟩
  rw [Float.parse, hparse]
  -- The two selectors `parse_ref` expects are among those that are known.
  match r, hspec with
  | .value v, hv => exact eqValue_layout hv.1
  | .selector _, ⟨_, .inl rfl⟩ => exact rfl
  | .selector _, ⟨_, .inr rfl⟩ => exact rfl

theorem referenceConcrete_passesChecks (selector : String → UInt32) :
    (referenceConcrete selector).PassesChecks selector where
  maxPositiveValue := hasBytes_layout ⟨by decide, by decide, by decide⟩
  minPositiveValue := hasBytes_layout ⟨by decide, by decide, by decide⟩
  maxNegativeValue := hasBytes_layout ⟨by decide, by decide, by decide⟩
  minNegativeValue := hasBytes_layout ⟨by decide, by decide, by decide⟩
  zero := hasBytes_layout isFloat_zero
  add a b := passes_float (returns_of_mem_outcomes (isFloat_fromBytes a) (isFloat_fromBytes b)
    (by simp [outcomes]))
  sub a b := passes_float (returns_of_mem_outcomes (isFloat_fromBytes a) (isFloat_fromBytes b)
    (by simp [outcomes]))
  mul a b := passes_float (returns_of_mem_outcomes (isFloat_fromBytes a) (isFloat_fromBytes b)
    (by simp [outcomes]))
  div a b := passes_float (returns_of_mem_outcomes (isFloat_fromBytes a) (isFloat_fromBytes b)
    (by simp [outcomes]))
  neg a := passes_float (returns_of_mem_outcomes (isFloat_fromBytes a) isFloat_zero
    (by simp [outcomes]))
  abs a := passes_float (returns_of_mem_outcomes (isFloat_fromBytes a) isFloat_zero
    (by simp [outcomes]))
  inv a := passes_float (returns_of_mem_outcomes (isFloat_fromBytes a) isFloat_zero
    (by simp [outcomes]))
  integer a := passes_float (returns_of_mem_outcomes (isFloat_fromBytes a) isFloat_zero
    (by simp [outcomes]))
  frac a := passes_float (returns_of_mem_outcomes (isFloat_fromBytes a) isFloat_zero
    (by simp [outcomes]))
  floor a := passes_float (returns_of_mem_outcomes (isFloat_fromBytes a) isFloat_zero
    (by simp [outcomes]))
  lt a b := passes_ok (meets_compareRef .lt (isFloat_fromBytes a) (isFloat_fromBytes b))
  gt a b := passes_ok (meets_compareRef .gt (isFloat_fromBytes a) (isFloat_fromBytes b))
  eq a b := passes_ok (meets_compareRef .eq (isFloat_fromBytes a) (isFloat_fromBytes b))
  lte a b := passes_ok (meets_compareRef .lte (isFloat_fromBytes a) (isFloat_fromBytes b))
  gte a b := passes_ok (meets_compareRef .gte (isFloat_fromBytes a) (isFloat_fromBytes b))
  min a b := passes_pickOn .lt (isFloat_fromBytes a) (isFloat_fromBytes b)
  max a b := passes_pickOn .gt (isFloat_fromBytes a) (isFloat_fromBytes b)
  isZero a := rfl
  fromFixedDecimal v d := passes_float (returns_fromFixedDecimalLossless v d)
  fromFixedDecimalLossy v d := by
    rcases (meets_fromFixedDecimalLossy v d).returns with ⟨r, hr, hfloat, -⟩
    refine ⟨r, hr, layout r.1, ?_, eqValue_layout hfloat⟩
    change callContract (referenceConcrete selector)
      (comeBackWith (fun r => (layout r.1, r.2)) (fromFixedDecimalLossy v d)) = _
    rw [hr]
    rfl
  toFixedDecimal a d := passes_same (meets_toFixedDecimalLossless (isFloat_fromBytes a) d)
  toFixedDecimalLossy a d := passes_same (meets_toFixedDecimalLossy (isFloat_fromBytes a) d)
  parse := passes_parse
  formatScientific a := by
    rcases exists_scientific (isFloat_fromBytes a) with ⟨l, hl, -⟩
    refine ⟨l.text, hl, ?_⟩
    change callContract (referenceConcrete selector)
      (comeBackWith id (formatScientific (fromBytes a))) = _
    rw [hl]
    rfl
  formatPlain a := by
    have hreturns : Meets (fun _ => False) (formatPlain (fromBytes a)) fun _ => True := by
      rcases exists_plain (isFloat_fromBytes a) with ⟨n, -, -, -, hplain⟩
      rcases hplain with ⟨-, l, hl, -⟩ | ⟨-, herr⟩
      · rw [hl]
        trivial
      · rw [herr]
        trivial
    exact passes_same hreturns

end Passes

end Binding
end RainFloat
