import RainFloat.Reference.Rounding
import RainFloat.Reference.Arithmetic

/-!
# Addition — sums round once, also when they are never formed

`add` forms the exact sum of operands whose exponents differ by at most 400.  Farther apart, it
replaces the smaller operand by a unit 200 places below the top digit of the larger one.

* `sameBelow_val_add_tail`: two tails that stay within the last of 70 places and have the same sign
  leave the same Float values below the sum;
* `meets_nudge`: the stand-in formed by `nudge` is such a sum, and its `unwrap` succeeds;
* `meets_add`: `add` rounds the true sum once.
-/

namespace RainFloat
namespace Reference

open Foundation Dec

/-- What the operands of an addition are: Floats, or negated Floats, whose coefficient may be one
past the largest int224. -/
structure IsOperand (x : Dec) : Prop where
  digits_le : digits x.c ≤ 68
  exponent_ge : i32Min ≤ x.e
  exponent_le : x.e ≤ i32Max

theorem IsFloat.isOperand {x : Dec} (h : IsFloat x) : IsOperand x :=
  ⟨h.digits_le, h.exponent_ge, h.exponent_le⟩

theorem IsOperand.neg {x : Dec} (h : IsOperand x) : IsOperand x.neg :=
  ⟨by simpa [Dec.neg] using h.digits_le, h.exponent_ge, h.exponent_le⟩

theorem IsOperand.bounds {x : Dec} (h : IsOperand x) :
    -2147483648 ≤ x.e ∧ x.e ≤ 2147483647 ∧ digits x.c ≤ 68 :=
  ⟨h.exponent_ge, h.exponent_le, h.digits_le⟩

theorem IsOperand.i64Safe {x : Dec} (h : IsOperand x) : x.I64Safe := by
  have := h.bounds
  unfold I64Safe
  omega

theorem IsOperand.packSafe {x : Dec} (h : IsOperand x) : PackSafe x := by
  have := h.bounds
  unfold PackSafe
  omega

/-! ## The exact sum -/

/-- The sum over the smaller of the two exponents, however far apart they are. -/
def exactSum (a b : Dec) : Dec :=
  let e := min a.e b.e
  ⟨a.c * pow10 (a.e - e).toNat + b.c * pow10 (b.e - e).toNat, e⟩

theorem exactSum_val (a b : Dec) : (exactSum a b).val = a.val + b.val := by
  have ha := aligned_mul_zpow (x := a) (e := min a.e b.e) (min_le_left _ _)
  have hb := aligned_mul_zpow (x := b) (e := min a.e b.e) (min_le_right _ _)
  rw [← ha, ← hb, ← add_mul, ← Int.cast_add]
  rfl

theorem IsOperand.packSafe_exactSum {a b : Dec} (ha : IsOperand a) (hb : IsOperand b) :
    PackSafe (exactSum a b) := by
  have h1 := ha.bounds
  have h2 := hb.bounds
  have hd : digits (exactSum a b).c ≤ 4294967363 + 1 :=
    digits_add_le (natAbs_mul_pow10_lt (by omega)) (natAbs_mul_pow10_lt (by omega))
  refine ⟨?_, ?_, by omega⟩ <;> dsimp only [exactSum] <;> omega

section Specs

variable {T : Panic → Prop}

theorem meets_addExact {a b : Dec} (h : T .overflow ∨ a.I64Safe ∧ b.I64Safe) :
    Meets T (a.addExact b)
      (· = if a.c = 0 then some b else if b.c = 0 then some a
        else if 400 < |a.e - b.e| then none else some (exactSum a b)) := by
  unfold addExact
  by_cases ha : a.c = 0
  · simp [ha]
  by_cases hb : b.c = 0
  · simp [ha, hb]
  simp only [isZero_iff, ha, hb, if_false]
  -- No `i64` result formed here is larger than the gap between the exponents.
  have hrange : ∀ z : ℤ, |z| ≤ |a.e - b.e| → T .overflow ∨ I64 z := by
    intro z hz
    refine h.imp_right fun hs => ?_
    rcases hs with ⟨h1, h2⟩
    unfold I64Safe at h1 h2
    rcases abs_cases z with hz' | hz' <;> rcases abs_cases (a.e - b.e) with hd | hd <;>
      constructor <;> omega
  refine (meets_i64 (hrange _ le_rfl)).bind_eq ?_
  refine (meets_i64 (hrange _ (abs_abs _).le)).bind_eq ?_
  split
  · rfl
  · have hda : |a.e - min a.e b.e| ≤ |a.e - b.e| := by
      rw [abs_of_nonneg (by omega : 0 ≤ a.e - min a.e b.e)]
      rcases abs_cases (a.e - b.e) with hd | hd <;> omega
    have hdb : |b.e - min a.e b.e| ≤ |a.e - b.e| := by
      rw [abs_of_nonneg (by omega : 0 ≤ b.e - min a.e b.e)]
      rcases abs_cases (a.e - b.e) with hd | hd <;> omega
    refine (meets_atExponent (min_le_left _ _) (hrange _ hda)).bind_eq ?_
    exact (meets_atExponent (min_le_right _ _) (hrange _ hdb)).bind_eq rfl

end Specs

/-! ## Tails too small to matter -/

/-- Adding to `big` one of two tails of the same sign, both smaller than a unit 70 places below its
top digit, leaves the same Float values between zero and the sum: the unit divides `big` and every
Float value of at least the magnitude `|big| - unit`. -/
theorem sameBelow_val_add_tail {big : Dec} (hbig : big.c ≠ 0) (hd : digits big.c ≤ 68) {δ δ' : ℚ}
    (hsign : 0 < δ ∧ 0 < δ' ∨ δ < 0 ∧ δ' < 0)
    (hδ : |δ| < (10 : ℚ) ^ (big.e + digits big.c - 70))
    (hδ' : |δ'| < (10 : ℚ) ^ (big.e + digits big.c - 70)) :
    SameBelow AnyExponent (big.val + δ) (big.val + δ') := by
  have hlow := (val_abs_bounds hbig).1
  generalize htop : big.e + (digits big.c : ℤ) = top at hlow hδ hδ'
  have hmul := aligned_mul_zpow (x := big) (e := top - 70) (by omega)
  have hle : (10 : ℚ) ^ (top - 70) ≤ |big.val| := (ten_zpow_le.2 (by omega)).trans hlow
  -- One unit off `big` leaves at least `10^(top - 2)`, even from a power of ten.
  have hgap : (10 : ℚ) ^ (top - 70) + (10 : ℚ) ^ (top - 2) ≤ |big.val| := by
    have h1 : (10 : ℚ) ^ (top - 70) ≤ (10 : ℚ) ^ (top - 2) := ten_zpow_le.2 (by omega)
    have h2 : (10 : ℚ) ^ (top - 1) = (10 : ℚ) ^ (top - 2) * 10 := by
      rw [show top - 1 = (top - 2) + 1 by ring, ten_zpow_add, zpow_one]
    have h3 := ten_zpow_pos (top - 2)
    linarith
  refine sameBelow_add_tail hmul.symm hle hsign hδ hδ' ?_
  -- The Float values that matter are at least `10^(top - 2)`.
  intro z hz hlt
  rw [anyExponent_eq] at hz
  rcases hz with ⟨f, -, hzf⟩
  have hge : (10 : ℚ) ^ (top - 70 + (68 : ℕ)) ≤ |z| := by
    rw [show top - 70 + ((68 : ℕ) : ℤ) = top - 2 by push_cast; ring]
    linarith
  simpa using multiple_of_mem_radixGrid (b := 10) (p := 68) (by norm_num) (by decide) (by decide)
    hzf (by simpa using hge)

/-! ## `nudge` and `add` -/

/-- The unit `nudge` puts in the place of `small`. -/
def unitOf (small : Dec) : ℤ :=
  if small.c < 0 then -1 else 1

/-- The stand-in for the sum of `big` and a much smaller `small`. -/
def nudged (big small : Dec) : Dec :=
  exactSum big ⟨unitOf small, big.e + digits big.c - 200⟩

theorem nudged_val (big small : Dec) :
    (nudged big small).val =
      big.val + (unitOf small : ℚ) * (10 : ℚ) ^ (big.e + digits big.c - 200) := by
  rw [nudged, exactSum_val]
  rfl

@[simp] theorem abs_unitOf (small : Dec) : |(unitOf small : ℚ)| = 1 := by
  unfold unitOf
  split <;> simp

theorem digits_unitOf (small : Dec) : digits (unitOf small) = 1 := by
  unfold unitOf
  split <;> rfl

theorem unitOf_ne_zero (small : Dec) : unitOf small ≠ 0 := by
  unfold unitOf
  split <;> decide

theorem packSafe_nudged {big small : Dec} (h : IsOperand big) : PackSafe (nudged big small) := by
  have hb := h.bounds
  have hd : digits (nudged big small).c ≤ 300 + 1 :=
    digits_add_le (natAbs_mul_pow10_lt (by dsimp only; omega))
      (natAbs_mul_pow10_lt (by dsimp only; rw [digits_unitOf]; omega))
  refine ⟨?_, ?_, by omega⟩ <;> dsimp only [nudged, exactSum] <;> omega

/-- A nonzero value over a much smaller exponent is far below the last of 70 places. -/
theorem abs_lt_of_far {big small : Dec} (hbig : big.c ≠ 0) (hsmall : small.c ≠ 0)
    (hd : digits small.c ≤ 68) (hfar : small.e + 400 < big.e) :
    |small.val| < (10 : ℚ) ^ (big.e + digits big.c - 70) := by
  have hpos := digits_pos hbig
  have hle : (10 : ℚ) ^ (small.e + digits small.c) ≤ (10 : ℚ) ^ (big.e + digits big.c - 70) :=
    ten_zpow_le.2 (by omega)
  linarith [(val_abs_bounds hsmall).2]

theorem abs_lt_abs_of_far {big small : Dec} (hbig : big.c ≠ 0) (hsmall : small.c ≠ 0)
    (hd : digits small.c ≤ 68) (hfar : small.e + 400 < big.e) : |small.val| < |big.val| := by
  have hle : (10 : ℚ) ^ (big.e + digits big.c - 70) ≤ (10 : ℚ) ^ (big.e + digits big.c - 1) :=
    ten_zpow_le.2 (by omega)
  linarith [abs_lt_of_far hbig hsmall hd hfar, (val_abs_bounds hbig).1]

/-- The stand-in has the same Float values below it as the sum it stands for. -/
theorem sameBelow_nudged {big small : Dec} (hbig : big.c ≠ 0) (hsmall : small.c ≠ 0)
    (hd : digits big.c ≤ 68) (hd' : digits small.c ≤ 68) (hfar : small.e + 400 < big.e) :
    SameBelow AnyExponent (big.val + small.val) (nudged big small).val := by
  have hten := ten_zpow_pos (big.e + digits big.c - 200)
  have hlt : (10 : ℚ) ^ (big.e + digits big.c - 200) < (10 : ℚ) ^ (big.e + digits big.c - 70) :=
    ten_zpow_lt.2 (by omega)
  rw [nudged_val]
  -- The smaller operand and the unit are two tails of one sign.
  refine sameBelow_val_add_tail hbig hd ?_ (abs_lt_of_far hbig hsmall hd' hfar) ?_
  · rcases lt_or_gt_of_ne hsmall with hneg | hpos
    · refine Or.inr ⟨val_neg_iff.2 hneg, ?_⟩
      simpa [unitOf, hneg] using hten
    · refine Or.inl ⟨val_pos_iff.2 hpos, ?_⟩
      simpa [unitOf, hpos.not_gt] using hten
  · rw [abs_mul, abs_unitOf, one_mul, abs_of_pos hten]
    exact hlt

/-- Neither a sum of operands far apart nor its stand-in vanishes. -/
theorem nudged_ne_zero {big small : Dec} (hbig : big.c ≠ 0) (hsmall : small.c ≠ 0)
    (hd' : digits small.c ≤ 68) (hfar : small.e + 400 < big.e) :
    big.val + small.val ≠ 0 ∧ (nudged big small).val ≠ 0 := by
  constructor
  · intro h0
    have h1 := abs_lt_abs_of_far hbig hsmall hd' hfar
    rw [eq_neg_of_add_eq_zero_left h0, abs_neg] at h1
    exact lt_irrefl _ h1
  · intro h0
    rw [nudged_val] at h0
    have hunit : |(unitOf small : ℚ) * (10 : ℚ) ^ (big.e + digits big.c - 200)| =
        (10 : ℚ) ^ (big.e + digits big.c - 200) := by
      rw [abs_mul, abs_unitOf, one_mul, abs_of_pos (ten_zpow_pos _)]
    -- The unit would have to cancel `big`, but it is 199 decades smaller at least.
    have h1 := (val_abs_bounds hbig).1
    rw [eq_neg_of_add_eq_zero_left h0, abs_neg, hunit, ten_zpow_le] at h1
    omega

section Specs

variable {T : Panic → Prop}

/-- The part of `nudge` after the larger operand is chosen: its `unwrap` succeeds, as the unit lies
within 400 places of the larger operand. -/
theorem meets_nudge_tail {big small : Dec} (hbig : IsOperand big) (hbig0 : big.c ≠ 0) :
    Meets T (do
      let top ← i64 (big.e + digits big.c)
      let unit := if small.isNegative then -1 else 1
      let e ← i64 (top - 200)
      let s ← big.addExact ⟨unit, e⟩
      unwrap s) (· = nudged big small) := by
  have hb := hbig.bounds
  have hpos := digits_pos hbig0
  refine (meets_i64 (Or.inr ⟨by omega, by omega⟩)).bind_eq ?_
  refine (meets_i64 (Or.inr ⟨by omega, by omega⟩)).bind_eq ?_
  have hunit : (if small.isNegative then -1 else 1 : ℤ) = unitOf small := by
    simp [unitOf]
  rw [hunit]
  have hsafe : (⟨unitOf small, big.e + digits big.c - 200⟩ : Dec).I64Safe := by
    unfold I64Safe
    rw [digits_unitOf]
    dsimp only
    omega
  refine (meets_addExact (Or.inr ⟨hbig.i64Safe, hsafe⟩)).bind_eq (meets_unwrap ?_)
  have hgap : ¬ 400 < |big.e - (big.e + digits big.c - 200)| := by
    rw [abs_of_nonneg (by omega)]
    omega
  simp only [hbig0, unitOf_ne_zero, hgap, if_false]
  rfl

theorem meets_nudge {a b : Dec} (ha : IsOperand a) (hb : IsOperand b) (ha0 : a.c ≠ 0)
    (hb0 : b.c ≠ 0) :
    Meets T (nudge a b) (· = if |a.val| < |b.val| then nudged b a else nudged a b) := by
  have hsafe : a.abs.I64Safe ∧ b.abs.I64Safe :=
    ⟨i64Safe_abs.2 ha.i64Safe, i64Safe_abs.2 hb.i64Safe⟩
  refine (meets_cmpValue (Or.inr hsafe)).bind_eq ?_
  rw [val_abs, val_abs]
  by_cases hlt : |a.val| < |b.val|
  · simpa only [compare_lt_iff_lt.2 hlt, hlt, if_true] using meets_nudge_tail hb hb0
  · have hne : compare |a.val| |b.val| ≠ .lt := fun h => hlt (compare_lt_iff_lt.1 h)
    simpa only [hne, hlt, if_false] using meets_nudge_tail ha ha0

/-- Of operands far apart the one with the larger exponent is the larger one. -/
theorem meets_nudge_of_far {a b : Dec} (ha : IsOperand a) (hb : IsOperand b) (ha0 : a.c ≠ 0)
    (hb0 : b.c ≠ 0) (hgap : 400 < |a.e - b.e|) :
    Meets T (nudge a b) fun t =>
      ∃ big small, (big = a ∧ small = b ∨ big = b ∧ small = a) ∧ small.e + 400 < big.e ∧
        t = nudged big small := by
  refine (meets_nudge ha hb ha0 hb0).mono ?_
  rintro _ rfl
  rcases lt_or_ge a.e b.e with hlt | hge
  · have hfar : a.e + 400 < b.e := by
      rw [abs_of_neg (by omega)] at hgap
      omega
    exact ⟨b, a, Or.inr ⟨rfl, rfl⟩, hfar, if_pos (abs_lt_abs_of_far hb0 ha0 ha.digits_le hfar)⟩
  · have hfar : b.e + 400 < a.e := by
      rw [abs_of_nonneg (by omega)] at hgap
      omega
    exact ⟨a, b, Or.inl ⟨rfl, rfl⟩, hfar,
      if_neg (abs_lt_abs_of_far ha0 hb0 hb.digits_le hfar).not_gt⟩

/-- The stand-in rounds like the sum it stands for. -/
theorem meets_arithmetic_nudged {big small : Dec} (hbig : IsOperand big) (hsmall : IsOperand small)
    (hbig0 : big.c ≠ 0) (hsmall0 : small.c ≠ 0) (hfar : small.e + 400 < big.e) :
    Meets T (arithmetic (nudged big small)) (Rounds (big.val + small.val)) := by
  have hne := nudged_ne_zero hbig0 hsmall0 hsmall.digits_le hfar
  have hsame := (sameBelow_nudged hbig0 hsmall0 hbig.digits_le hsmall.digits_le hfar).symm
  exact (meets_arithmetic (Or.inr (packSafe_nudged hbig))).mono fun r hr =>
    rounds_congr hsame (by simp [hne.1, hne.2]) hr

/-- `add` rounds the true sum once. -/
theorem meets_add {a b : Dec} (ha : IsOperand a) (hb : IsOperand b) :
    Meets T (add a b) (Rounds (a.val + b.val)) := by
  refine (meets_addExact (Or.inr ⟨ha.i64Safe, hb.i64Safe⟩)).bind_eq ?_
  by_cases ha0 : a.c = 0
  · -- Nothing to add to `b`.
    simp only [ha0, if_true]
    refine Meets.bind_eq (a := b) rfl ?_
    simpa [val_eq_zero_iff.2 ha0] using meets_arithmetic (Or.inr hb.packSafe)
  by_cases hb0 : b.c = 0
  · simp only [ha0, hb0, if_true, if_false]
    refine Meets.bind_eq (a := a) rfl ?_
    simpa [val_eq_zero_iff.2 hb0] using meets_arithmetic (Or.inr ha.packSafe)
  by_cases hgap : 400 < |a.e - b.e|
  · -- The sum is not formed; what is rounded instead has the same Float values below it.
    simp only [ha0, hb0, hgap, if_true, if_false]
    refine (meets_nudge_of_far ha hb ha0 hb0 hgap).bind ?_
    rintro _ ⟨big, small, ⟨rfl, rfl⟩ | ⟨rfl, rfl⟩, hfar, rfl⟩
    · exact meets_arithmetic_nudged ha hb ha0 hb0 hfar
    · rw [add_comm]
      exact meets_arithmetic_nudged hb ha hb0 ha0 hfar
  · simp only [ha0, hb0, hgap, if_false]
    refine Meets.bind_eq (a := exactSum a b) rfl ?_
    simpa [exactSum_val] using meets_arithmetic (Or.inr (ha.packSafe_exactSum hb))

end Specs

/-! ## `add` and `sub`, read back -/

/-- A sum of Floats has the outcome of rounding the exact sum, which in turn is one rounding towards
zero of the true sum.  The same holds of differences, where the negated operand may fail to be a
Float.  Where the exponents are more than 400 apart the exact sum is never formed, yet the sum with
the stand-in has its outcome. -/
theorem add_sub_round_once (a b : Dec) (ha : IsFloat a) (hb : IsFloat b) :
    (∃ r s, add a b = .ok r ∧ Rounds (a.val + b.val) r ∧
      (exactSum a b).val = a.val + b.val ∧ arithmetic (exactSum a b) = .ok s ∧ SameOutcome r s) ∧
    (∃ r s, sub a b = .ok r ∧ Rounds (a.val - b.val) r ∧
      (exactSum a b.neg).val = a.val - b.val ∧ arithmetic (exactSum a b.neg) = .ok s ∧
        SameOutcome r s) ∧
    (a.c ≠ 0 → b.c ≠ 0 → 400 < |a.e - b.e| →
      ∃ big small t r, (big = a ∧ small = b ∨ big = b ∧ small = a) ∧ |small.val| < |big.val| ∧
        nudge a b = .ok t ∧
        t.val = big.val +
          (if small.c < 0 then -1 else 1) * (10 : ℚ) ^ (big.e + digits big.c - 200) ∧
        add a b = .ok r ∧ arithmetic t = .ok r) := by
  have ha' := ha.isOperand
  have hb' := hb.isOperand
  -- Stated for operands, since the one that `sub` negates need not be a Float.
  have key : ∀ x y : Dec, IsOperand x → IsOperand y →
      ∃ r s, add x y = .ok r ∧ Rounds (x.val + y.val) r ∧ (exactSum x y).val = x.val + y.val ∧
        arithmetic (exactSum x y) = .ok s ∧ SameOutcome r s := by
    intro x y hx hy
    rcases (meets_add hx hy).returns with ⟨r, hr, hround⟩
    rcases (meets_arithmetic (Or.inr (hx.packSafe_exactSum hy))).returns with ⟨s, hs, hround'⟩
    have hval := exactSum_val x y
    exact ⟨r, s, hr, hround, hval, hs, hround.unique (hval ▸ hround')⟩
  refine ⟨key a b ha' hb', ?_, ?_⟩
  · simpa only [sub, val_neg, ← sub_eq_add_neg] using key a b.neg ha' hb'.neg
  · intro ha0 hb0 hgap
    have hsum : a.addExact b = .ok none := by
      have := (meets_addExact (T := fun _ => False) (Or.inr ⟨ha'.i64Safe, hb'.i64Safe⟩)).eq_ok
      simpa only [ha0, hb0, hgap, if_true, if_false] using this
    rcases (meets_nudge_of_far ha' hb' ha0 hb0 hgap).returns with
      ⟨_, hn, big, small, horder, hfar, rfl⟩
    have hoperands : IsOperand big ∧ big.c ≠ 0 ∧ IsOperand small ∧ small.c ≠ 0 := by
      rcases horder with ⟨rfl, rfl⟩ | ⟨rfl, rfl⟩
      · exact ⟨ha', ha0, hb', hb0⟩
      · exact ⟨hb', hb0, ha', ha0⟩
    rcases hoperands with ⟨hbig, hbig0, hsmall, hsmall0⟩
    rcases (meets_arithmetic (Or.inr (packSafe_nudged hbig))).returns with ⟨r, hr, -⟩
    refine ⟨big, small, _, r, horder, abs_lt_abs_of_far hbig0 hsmall0 hsmall.digits_le hfar, hn,
      ?_, ?_, hr⟩
    · simp [nudged_val, unitOf]
    · rw [add, hsum]
      change (nudge a b >>= arithmetic) = _
      rw [hn]
      exact hr

/-- One minus the smallest coefficient a thousand places further down. -/
theorem add_sub_round_once_far :
    ∃ r, sub ⟨1, 0⟩ ⟨int224Min, -1000⟩ = .ok r ∧
      Rounds ((⟨1, 0⟩ : Dec).val - (⟨int224Min, -1000⟩ : Dec).val) r := by
  have h := add_sub_round_once ⟨1, 0⟩ ⟨int224Min, -1000⟩ ⟨by decide, by decide, by decide⟩
    ⟨by decide, by decide, by decide⟩
  rcases h.2.1 with ⟨r, s, hr, hround, -⟩
  exact ⟨r, hr, hround⟩

-- Just below one: every digit of the coefficient is a nine.
example : add ⟨1, 0⟩ ⟨-1, -1000⟩ = .ok (.ok ⟨10 ^ 67 - 1, -67⟩) := by
  decide +kernel

end Reference
end RainFloat
