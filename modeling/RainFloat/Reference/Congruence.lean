import RainFloat.Reference.Closure
import RainFloat.Reference.Comparison
import RainFloat.Reference.FixedPoint
import RainFloat.Reference.Rendering

/-!
# Congruence — no operation looks behind the value of a Float

The same value has many representations.  Every operation on Floats of the same value has the same
outcome: results of the same value or the same error, the same answer, the same integer, the same
text.

* `SameFloat`: two Floats of the same value;
* `RunAlike`: two runs that return, with related results or the same error;
* `operations_depend_on_values`: the statement for all operations at once.
-/

namespace RainFloat
namespace Reference

open Foundation Dec

/-! ## Equal values and equal outcomes -/

/-- Floats of the same value. -/
structure SameFloat (x y : Dec) : Prop where
  left : IsFloat x
  right : IsFloat y
  val : x.val = y.val

theorem SameFloat.refl {x : Dec} (h : IsFloat x) : SameFloat x x :=
  ⟨h, h, rfl⟩

theorem SameFloat.trans {x y z : Dec} (h : SameFloat x y) (h' : SameFloat y z) : SameFloat x z :=
  ⟨h.left, h'.right, h.val.trans h'.val⟩

/-- Zero is zero in every representation. -/
theorem SameFloat.c_eq_zero_iff {x y : Dec} (h : SameFloat x y) : x.c = 0 ↔ y.c = 0 := by
  rw [← val_eq_zero_iff, ← val_eq_zero_iff, h.val]

/-- Related values, or the same error. -/
def Alike {ε α β : Type} (R : α → β → Prop) : Except ε α → Except ε β → Prop
  | .ok v, .ok w => R v w
  | .error e, .error f => e = f
  | _, _ => False

/-- Two runs return, without a panic on the way, and their outcomes are alike. -/
def RunAlike {α β : Type} (R : α → β → Prop) (m : Exec (Except RefError α))
    (m' : Exec (Except RefError β)) : Prop :=
  ∃ r r', m = .ok r ∧ m' = .ok r' ∧ Alike R r r'

/-- What a rational rounds to is the same up to representation. -/
theorem Rounds.alike {q : ℚ} {r r' : Except RefError Dec} (h : Rounds q r) (h' : Rounds q r') :
    Alike SameFloat r r' := by
  have hsame := h.unique h'
  match r, r', hsame with
  | .ok v, .ok w, hval => exact ⟨h.isFloat rfl, h'.isFloat rfl, hval⟩
  | .error e, .error f, herr => exact herr

theorem runAlike_of_rounds {m m' : Exec (Except RefError Dec)} {q q' : ℚ} (hq : q = q')
    (h : Meets (fun _ => False) m (Rounds q)) (h' : Meets (fun _ => False) m' (Rounds q')) :
    RunAlike SameFloat m m' := by
  subst hq
  rcases h.returns with ⟨r, hr, hround⟩
  rcases h'.returns with ⟨r', hr', hround'⟩
  exact ⟨r, r', hr, hr', hround.alike hround'⟩

/-- Operations that always yield a Float of a value known exactly. -/
theorem runAlike_of_yields {m m' : Exec (Except RefError Dec)} {q q' : ℚ} (hq : q = q')
    (h : Meets (fun _ => False) m fun r => ∃ v, r = .ok v ∧ IsFloat v ∧ v.val = q)
    (h' : Meets (fun _ => False) m' fun r => ∃ v, r = .ok v ∧ IsFloat v ∧ v.val = q') :
    RunAlike SameFloat m m' := by
  rcases h.returns with ⟨r, hr, v, rfl, hv, hval⟩
  rcases h'.returns with ⟨r', hr', w, rfl, hw, hval'⟩
  exact ⟨_, _, hr, hr', hv, hw, hval.trans (hq.trans hval'.symm)⟩

/-! ## Operations that round a known value once

`minus` and `abs` do round: the coefficient `-2^223` has no counterpart of the other sign. -/

section Specs

variable {T : Panic → Prop}

theorem IsFloat.isOperand_abs {x : Dec} (h : IsFloat x) : IsOperand x.abs :=
  ⟨by rw [Dec.abs, digits_congr (Int.natAbs_abs x.c)]; exact h.digits_le, h.exponent_ge,
    h.exponent_le⟩

theorem meets_sub {a b : Dec} (ha : IsFloat a) (hb : IsFloat b) :
    Meets T (sub a b) (Rounds (a.val - b.val)) := by
  rw [sub_eq_add_neg, ← val_neg]
  exact meets_add ha.isOperand hb.isOperand.neg

theorem meets_minus_rounds {a : Dec} (h : IsFloat a) : Meets T (minus a) (Rounds (-a.val)) := by
  rw [← val_neg]
  exact meets_arithmetic (Or.inr h.isOperand.neg.packSafe)

theorem meets_abs_rounds {a : Dec} (h : IsFloat a) : Meets T (abs a) (Rounds |a.val|) := by
  rw [← val_abs]
  exact meets_arithmetic (Or.inr h.isOperand_abs.packSafe)

end Specs

/-! ## The arithmetic operations -/

section Arithmetic

variable {a a' b b' : Dec}

theorem runAlike_add (ha : SameFloat a a') (hb : SameFloat b b') :
    RunAlike SameFloat (add a b) (add a' b') :=
  runAlike_of_rounds (by rw [ha.val, hb.val])
    (meets_add ha.left.isOperand hb.left.isOperand)
    (meets_add ha.right.isOperand hb.right.isOperand)

theorem runAlike_sub (ha : SameFloat a a') (hb : SameFloat b b') :
    RunAlike SameFloat (sub a b) (sub a' b') :=
  runAlike_of_rounds (by rw [ha.val, hb.val]) (meets_sub ha.left hb.left)
    (meets_sub ha.right hb.right)

theorem runAlike_mul (ha : SameFloat a a') (hb : SameFloat b b') :
    RunAlike SameFloat (mul a b) (mul a' b') :=
  runAlike_of_rounds (by rw [ha.val, hb.val]) (meets_mul ha.left hb.left)
    (meets_mul ha.right hb.right)

theorem runAlike_div (ha : SameFloat a a') (hb : SameFloat b b') :
    RunAlike SameFloat (div a b) (div a' b') := by
  -- A divisor is zero in all of its representations or in none.
  by_cases hb0 : b.c = 0
  · rw [div_zero_divisor a hb0, div_zero_divisor a' (hb.c_eq_zero_iff.1 hb0)]
    exact ⟨_, _, rfl, rfl, rfl⟩
  · exact runAlike_of_rounds (by rw [ha.val, hb.val]) (meets_div ha.left hb.left hb0)
      (meets_div ha.right hb.right fun h0 => hb0 (hb.c_eq_zero_iff.2 h0))

theorem runAlike_inv (ha : SameFloat a a') : RunAlike SameFloat (inv a) (inv a') :=
  runAlike_div (SameFloat.refl isFloat_one) ha

theorem runAlike_minus (ha : SameFloat a a') : RunAlike SameFloat (minus a) (minus a') :=
  runAlike_of_rounds (by rw [ha.val]) (meets_minus_rounds ha.left) (meets_minus_rounds ha.right)

theorem runAlike_abs (ha : SameFloat a a') : RunAlike SameFloat (abs a) (abs a') :=
  runAlike_of_rounds (by rw [ha.val]) (meets_abs_rounds ha.left) (meets_abs_rounds ha.right)

theorem runAlike_integer (ha : SameFloat a a') : RunAlike SameFloat (integer a) (integer a') :=
  runAlike_of_yields (by rw [ha.val]) (meets_integer ha.left) (meets_integer ha.right)

theorem runAlike_frac (ha : SameFloat a a') : RunAlike SameFloat (frac a) (frac a') :=
  runAlike_of_yields (by rw [ha.val]) (meets_frac ha.left) (meets_frac ha.right)

theorem runAlike_floor (ha : SameFloat a a') : RunAlike SameFloat (floor a) (floor a') :=
  runAlike_of_yields (by rw [ha.val]) (meets_floor ha.left) (meets_floor ha.right)

/-- The outcomes on Floats of the same values are alike, operation by operation. -/
theorem forall₂_outcomes (ha : SameFloat a a') (hb : SameFloat b b') :
    List.Forall₂ (RunAlike SameFloat) (outcomes a b) (outcomes a' b') :=
  .cons (runAlike_add ha hb) <| .cons (runAlike_sub ha hb) <| .cons (runAlike_mul ha hb) <|
    .cons (runAlike_div ha hb) <| .cons (runAlike_inv ha) <| .cons (runAlike_minus ha) <|
    .cons (runAlike_abs ha) <| .cons (runAlike_integer ha) <| .cons (runAlike_frac ha) <|
    .cons (runAlike_floor ha) .nil

end Arithmetic

/-! ## Comparisons -/

theorem compareRef_congr (c : Comparison) {a a' b b' : Dec} (ha : SameFloat a a')
    (hb : SameFloat b b') : compareRef c a b = compareRef c a' b' := by
  rw [(meets_compareRef c ha.left hb.left).eq_ok, (meets_compareRef c ha.right hb.right).eq_ok,
    ha.val, hb.val]

/-- The operand kept is related to the one kept elsewhere. -/
theorem exists_pickOn (outcome : Ordering) {a a' b b' : Dec} (ha : SameFloat a a')
    (hb : SameFloat b b') :
    ∃ m m', pickOn outcome a b = .ok m ∧ pickOn outcome a' b' = .ok m' ∧ SameFloat m m' := by
  refine ⟨_, _, (meets_pickOn outcome ha.left hb.left).eq_ok,
    (meets_pickOn outcome ha.right hb.right).eq_ok, ?_⟩
  -- Which operand is kept depends on the values only.
  rw [ha.val, hb.val]
  split
  · exact ha
  · exact hb

/-! ## Fixed-point integers -/

/-- An integer written from a value is the same for every representation of the value. -/
theorem WritesFixed.unique {q : ℚ} {r r' : Except RefError (U256 × Bool)} (h : WritesFixed q r)
    (h' : WritesFixed q r') : r = r' := by
  have hneg := (writesFixed_iff h).1
  have hneg' := (writesFixed_iff h').1
  have hover := (writesFixed_iff h).2.1
  have hover' := (writesFixed_iff h').2.1
  -- A debt, too many units, or the units themselves: `q` decides on the case.
  by_cases hq : q < 0
  · rw [hneg.2 hq, hneg'.2 hq]
  rw [not_lt] at hq
  by_cases hbig : 2 ^ 256 - 1 < ⌊q⌋
  · rw [hover.2 ⟨hq, hbig⟩, hover'.2 ⟨hq, hbig⟩]
  rw [not_lt] at hbig
  rcases (writesFixed_iff h).2.2 hq hbig with ⟨w, b, rfl, hw, hb⟩
  rcases (writesFixed_iff h').2.2 hq hbig with ⟨w', b', rfl, hw', hb'⟩
  have hww : w = w' := Fin.ext (by exact_mod_cast hw.trans hw'.symm)
  have hbb : b = b' := Bool.eq_iff_iff.2 (hb.trans hb'.symm)
  rw [hww, hbb]

theorem toFixedDecimalLossy_congr {x y : Dec} (h : SameFloat x y) (d : UInt8) :
    toFixedDecimalLossy x d = toFixedDecimalLossy y d := by
  rcases (meets_toFixedDecimalLossy h.left d).returns with ⟨r, hr, hwrites⟩
  rcases (meets_toFixedDecimalLossy h.right d).returns with ⟨r', hr', hwrites'⟩
  rw [← h.val] at hwrites'
  rw [hr, hr', hwrites.unique hwrites']

theorem toFixedDecimalLossless_congr {x y : Dec} (h : SameFloat x y) (d : UInt8) :
    toFixedDecimalLossless x d = toFixedDecimalLossless y d := by
  rw [toFixedDecimalLossless, toFixedDecimalLossless, toFixedDecimalLossy_congr h]

theorem returns_fromFixedDecimalLossless (v : U256) (d : UInt8) :
    Returns (fromFixedDecimalLossless v d) :=
  (meets_fromFixedDecimalLossless v d).mono fun _ h f hf => (h.1 f hf).1

/-! ## All operations -/

/-- Whatever the representations of its operands, an operation has an outcome that depends on their
values only: results of the same value or the same error, and the same answers, integers and
texts. -/
theorem operations_depend_on_values (x x' y y' : Dec) (hx : IsFloat x) (hx' : IsFloat x')
    (hy : IsFloat y) (hy' : IsFloat y') (hxx : x.val = x'.val) (hyy : y.val = y'.val) :
    List.Forall₂ (fun m m' => ∃ r r', m = .ok r ∧ m' = .ok r' ∧ SameOutcome r r')
      (outcomes x y) (outcomes x' y') ∧
    (∀ c, compareRef c x y = compareRef c x' y') ∧
    (∀ pick ∈ [minRef, maxRef], ∃ m m', pick x y = .ok m ∧ pick x' y' = .ok m' ∧ m.val = m'.val) ∧
    (∀ d, toFixedDecimalLossy x d = toFixedDecimalLossy x' d ∧
      toFixedDecimalLossless x d = toFixedDecimalLossless x' d) ∧
    formatScientific x = formatScientific x' ∧ formatPlain x = formatPlain x' := by
  have h : SameFloat x x' := ⟨hx, hx', hxx⟩
  have h' : SameFloat y y' := ⟨hy, hy', hyy⟩
  refine ⟨?_, fun c => compareRef_congr c h h', ?_, fun d => ?_, ?_, ?_⟩
  · refine (forall₂_outcomes h h').imp ?_
    rintro m m' ⟨r, r', hm, hm', halike⟩
    refine ⟨r, r', hm, hm', ?_⟩
    match r, r', halike with
    | .ok v, .ok w, hvw => exact hvw.val
    | .error e, .error f, hef => exact hef
  · intro pick hpick
    rw [List.mem_cons, List.mem_singleton] at hpick
    rcases hpick with rfl | rfl
    · rcases exists_pickOn .lt h h' with ⟨m, m', hm, hm', hsame⟩
      exact ⟨m, m', hm, hm', hsame.val⟩
    · rcases exists_pickOn .gt h h' with ⟨m, m', hm, hm', hsame⟩
      exact ⟨m, m', hm, hm', hsame.val⟩
  · exact ⟨toFixedDecimalLossy_congr h d, toFixedDecimalLossless_congr h d⟩
  · exact formatScientific_congr hx hx' hxx
  · exact formatPlain_congr hx hx' hxx

/-- Twelve hundred in two representations. -/
theorem operations_depend_on_values_twelve_hundred :
    toFixedDecimalLossy ⟨12, 2⟩ 6 = toFixedDecimalLossy ⟨1200, 0⟩ 6 := by
  have hx : IsFloat ⟨12, 2⟩ := ⟨by decide, by decide, by decide⟩
  have hx' : IsFloat ⟨1200, 0⟩ := ⟨by decide, by decide, by decide⟩
  have hval : (⟨12, 2⟩ : Dec).val = (⟨1200, 0⟩ : Dec).val := by norm_num [val]
  exact ((operations_depend_on_values _ _ _ _ hx hx' hx hx' hval hval).2.2.2.1 6).1

end Reference
end RainFloat
