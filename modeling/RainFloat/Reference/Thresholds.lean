import RainFloat.Reference.FixedPoint
import RainFloat.Reference.Order

/-!
# Thresholds — what a rounded result still decides about the exact one

Rounding loses digits, but not the side of a Float on which the exact result lies: between a number
and its truncation there is no Float.

* `Rounds.le_place_iff`, `Rounds.place_le_iff`: a Float lies on the same side of the outcome as of
  the exact result, when that outcome is an error as well;
* `thresholds_exact`: so a result compares with any Float as the exact result does;
* `settlements_exact`: and its whole units, with any number of decimals, are those of the exact
  result.
-/

namespace RainFloat
namespace Reference

open Foundation Dec

/-! ## One side of zero at a time -/

theorem representable_coe_le {z w : ℚ} :
    ((z : WithTop ℚ) : WithBot (WithTop ℚ)) ≤ ((w : WithTop ℚ) : WithBot (WithTop ℚ)) ↔ z ≤ w := by
  rw [WithBot.coe_le_coe, WithTop.coe_le_coe]

/-- Above zero, the Floats below the outcome are those below the exact result. -/
theorem Rounds.le_place_iff {q z : ℚ} {r : Except RefError Dec} (h : Rounds q r) (hq : 0 ≤ q)
    (hz : z ∈ Representable) :
    ((z : WithTop ℚ) : WithBot (WithTop ℚ)) ≤ place q r ↔ z ≤ q := by
  by_cases hbeyond : BeyondExtremes q
  · -- An overflow lies above every Float, and so does the exact result.
    have hplace : place q r = ((⊤ : WithTop ℚ) : WithBot (WithTop ℚ)) := by
      rw [h.eq_overflow hbeyond, place, if_neg hq.not_gt]
    have hle : z ≤ q := by
      rcases hbeyond with ⟨u, hu, hout | hout⟩
      · calc
          z ≤ maxPositive.val := (mem_representable_bounds hz).2
          _ ≤ u := hout.le
          _ ≤ q := hu.le_self hq
      · exact absurd (hu.nonneg hq) (hout.trans minNegative_val_neg).not_ge
    rw [hplace, WithBot.coe_le_coe]
    exact iff_of_true le_top hle
  · rcases h.exists_place hbeyond with ⟨w, hw, hplace⟩
    rw [hplace, representable_coe_le]
    exact hw.le_iff hq hz

/-- Below zero, the Floats above the outcome are those above the exact result. -/
theorem Rounds.place_le_iff {q z : ℚ} {r : Except RefError Dec} (h : Rounds q r) (hq : q ≤ 0)
    (hz : z ∈ Representable) :
    place q r ≤ ((z : WithTop ℚ) : WithBot (WithTop ℚ)) ↔ q ≤ z := by
  by_cases hbeyond : BeyondExtremes q
  · have hneg : q < 0 := by
      apply lt_of_le_of_ne hq
      intro h0
      exact not_beyondExtremes_zero (h0 ▸ hbeyond)
    -- An overflow lies below every Float, and so does the exact result.
    have hplace : place q r = ⊥ := by
      rw [h.eq_overflow hbeyond, place, if_pos hneg]
    have hle : q ≤ z := by
      rcases hbeyond with ⟨u, hu, hout | hout⟩
      · exact absurd (hu.nonpos hq) (maxPositive_val_pos.trans hout).not_ge
      · calc
          q ≤ u := hu.self_le hq
          _ ≤ minNegative.val := hout.le
          _ ≤ z := (mem_representable_bounds hz).1
    rw [hplace]
    exact iff_of_true bot_le hle
  · rcases h.exists_place hbeyond with ⟨w, hw, hplace⟩
    rw [hplace, representable_coe_le]
    exact hw.ge_iff hq hz

/-! ## Comparing a result with a Float -/

/-- What the outcome `r` of rounding `q` tells about the Float `z`: on the side away from zero it
lies as `q` does, and the comparison that asks for this side decides the question for `q`. -/
def Decides (q : ℚ) (r : Except RefError Dec) (z : Dec) : Prop :=
  (0 ≤ q → ((((z.val : WithTop ℚ) : WithBot (WithTop ℚ)) ≤ place q r ↔ z.val ≤ q) ∧
    ∀ v, r = .ok v → compareRef .gte v z = .ok (decide (z.val ≤ q)))) ∧
  (q ≤ 0 → ((place q r ≤ ((z.val : WithTop ℚ) : WithBot (WithTop ℚ)) ↔ q ≤ z.val) ∧
    ∀ v, r = .ok v → compareRef .lte v z = .ok (decide (q ≤ z.val))))

/-- A comparison of two Floats, by the order it stands for. -/
theorem compareRef_eq_decide (c : Comparison) {a b : Dec} (ha : IsFloat a) (hb : IsFloat b)
    {P : Prop} [Decidable P] (h : c.Holds a.val b.val ↔ P) : compareRef c a b = .ok (decide P) := by
  rw [(meets_compareRef c ha hb).eq_ok]
  congr 1
  rw [Bool.eq_iff_iff, Comparison.holds_compare, h, decide_eq_true_iff]

theorem Rounds.decides {q : ℚ} {r : Except RefError Dec} (h : Rounds q r) {z : Dec}
    (hz : IsFloat z) : Decides q r z := by
  refine ⟨?_, ?_⟩
  · intro hq
    have hplace := h.le_place_iff hq hz.val_mem
    refine ⟨hplace, ?_⟩
    intro v hv
    subst hv
    apply compareRef_eq_decide .gte h.2.2.1 hz
    exact h.2.2.2.le_iff hq hz.val_mem
  · intro hq
    have hplace := h.place_le_iff hq hz.val_mem
    refine ⟨hplace, ?_⟩
    intro v hv
    subst hv
    apply compareRef_eq_decide .lte h.2.2.1 hz
    exact h.2.2.2.ge_iff hq hz.val_mem

/-- A run that rounds `q` and settles every question about which side of `z` it is on. -/
def RunDecides (q : ℚ) (m : Exec (Except RefError Dec)) (z : Dec) : Prop :=
  ∃ r, m = .ok r ∧ Decides q r z

theorem runDecides_of_rounds {q : ℚ} {m : Exec (Except RefError Dec)} {z : Dec}
    (h : Meets (fun _ => False) m (Rounds q)) (hz : IsFloat z) : RunDecides q m z := by
  rcases h.returns with ⟨r, hr, hround⟩
  exact ⟨r, hr, hround.decides hz⟩

/-- Comparing the result of an operation with a Float is comparing the exact result with it.
Whether a nonnegative result reaches the Float, or a nonpositive one stays down to it, is decided
without error, and an overflow or underflow lies on the right side of every Float too. -/
theorem thresholds_exact (a b z : Dec) (ha : IsFloat a) (hb : IsFloat b) (hz : IsFloat z) :
    RunDecides (a.val + b.val) (add a b) z ∧ RunDecides (a.val - b.val) (sub a b) z ∧
    RunDecides (a.val * b.val) (mul a b) z ∧
    (b.val ≠ 0 → RunDecides (a.val / b.val) (div a b) z) ∧
    (a.val ≠ 0 → RunDecides (1 / a.val) (inv a) z) := by
  refine ⟨?_, ?_, ?_, ?_, ?_⟩
  · exact runDecides_of_rounds (meets_add ha.isOperand hb.isOperand) hz
  · exact runDecides_of_rounds (meets_sub ha hb) hz
  · exact runDecides_of_rounds (meets_mul ha hb) hz
  · intro h0
    have hb0 : b.c ≠ 0 := fun hc => h0 (val_eq_zero_iff.2 hc)
    exact runDecides_of_rounds (meets_div ha hb hb0) hz
  · intro h0
    have ha0 : a.c ≠ 0 := fun hc => h0 (val_eq_zero_iff.2 hc)
    -- `inv` divides one.
    have hinv := meets_div (T := fun _ => False) isFloat_one ha ha0
    rw [val_one] at hinv
    exact runDecides_of_rounds hinv hz

/-- Two thirds, cut off after 67 digits, still reach every Float that two thirds reach. -/
theorem thresholds_exact_thirds : RunDecides ((⟨2, 0⟩ : Dec).val / (⟨3, 0⟩ : Dec).val)
    (div ⟨2, 0⟩ ⟨3, 0⟩) ⟨6666, -4⟩ := by
  apply (thresholds_exact ⟨2, 0⟩ ⟨3, 0⟩ ⟨6666, -4⟩ ⟨by decide, by decide, by decide⟩
    ⟨by decide, by decide, by decide⟩ ⟨by decide, by decide, by decide⟩).2.2.2.1
  norm_num [val]

/-! ## Counting whole units -/

/-- A number of units of `10^-d` that is a coefficient is a Float. -/
theorem units_mem {n : ℤ} (hn : fitsInt224 n = true) (d : UInt8) :
    (n : ℚ) / (10 : ℚ) ^ d.toNat ∈ Representable := by
  have hd := decimals_le d
  refine ⟨n, -(d.toNat : ℤ), hn, ?_, ?_, ?_⟩
  · unfold i32Min
    omega
  · unfold i32Max
    omega
  · rw [zpow_neg, zpow_natCast, div_eq_mul_inv]

theorem towardZero_of_truncatesTo_of_nonneg {q v : ℚ} (h : TruncatesTo Representable q v)
    (hq : 0 ≤ q) (hfit : fitsInt224 (towardZero q) = true) : towardZero v = towardZero q := by
  rw [towardZero_of_nonneg hq] at hfit
  rw [towardZero_of_nonneg hq, towardZero_of_nonneg (h.nonneg hq)]
  have hunits := h.floor_mul_eq hq zero_lt_one (by simpa using units_mem hfit 0)
  simpa using hunits

/-- Truncation keeps the integer part, where this is a coefficient. -/
theorem towardZero_of_truncatesTo {q v : ℚ} (h : TruncatesTo Representable q v)
    (hfit : fitsInt224 (towardZero q) = true) : towardZero v = towardZero q := by
  rcases le_total 0 q with hq | hq
  · exact towardZero_of_truncatesTo_of_nonneg h hq hfit
  · have hv := h.nonpos hq
    -- Below zero the integer part is the next integer above.
    have hceil : ∀ x : ℚ, x ≤ 0 → towardZero x = ⌈x⌉ := by
      intro x hx
      rcases hx.eq_or_lt with rfl | hneg
      · simp [towardZero]
      · exact towardZero_of_neg hneg
    have hmem := units_mem hfit 0
    rw [hceil q hq] at hmem ⊢
    have hge : v ≤ ((⌈q⌉ : ℤ) : ℚ) := by
      apply (h.ge_iff hq (by simpa using hmem)).2
      exact Int.le_ceil q
    rw [hceil v hv, Int.ceil_eq_iff]
    refine ⟨?_, hge⟩
    calc
      ((⌈q⌉ : ℤ) : ℚ) - 1 < q := by linarith [Int.ceil_lt_add_one q]
      _ ≤ v := h.self_le hq

/-- Paying out the Float `v` instead of `q` makes no difference: its integer part and, with any
number of decimals, its whole units are those of `q`, as long as they are a coefficient.  What is
a whole number of units is also reported as such. -/
def Settles (q : ℚ) (v : Dec) : Prop :=
  (fitsInt224 (towardZero q) = true →
    ∃ w, integer v = .ok (.ok w) ∧ IsFloat w ∧ w.val = (towardZero q : ℤ)) ∧
  ∀ d : UInt8, 0 ≤ q → ⌊q * (10 : ℚ) ^ d.toNat⌋ ≤ int224Max →
    ∃ w b, toFixedDecimalLossy v d = .ok (.ok (w, b)) ∧ (w.val : ℤ) = ⌊q * (10 : ℚ) ^ d.toNat⌋ ∧
      ((∃ n : ℤ, q * (10 : ℚ) ^ d.toNat = n) → b = true)

theorem Rounds.settles {q : ℚ} {v : Dec} (h : Rounds q (.ok v)) : Settles q v := by
  have hv : IsFloat v := h.2.2.1
  have htrunc : TruncatesTo Representable q v.val := h.2.2.2
  constructor
  · intro hfit
    rcases (meets_integer hv).returns with ⟨_, hrun, w, rfl, hw, hval⟩
    refine ⟨w, hrun, hw, ?_⟩
    rw [hval, towardZero_of_truncatesTo htrunc hfit]
  · intro d hq hle
    have hpow : (0 : ℚ) < (10 : ℚ) ^ d.toNat := by positivity
    have hfloor : 0 ≤ ⌊q * (10 : ℚ) ^ d.toNat⌋ := Int.floor_nonneg.2 (mul_nonneg hq hpow.le)
    have hfit : fitsInt224 ⌊q * (10 : ℚ) ^ d.toNat⌋ = true := by
      apply fitsInt224_iff.2
      exact ⟨int224Min_neg.le.trans hfloor, hle⟩
    have hunits := htrunc.floor_mul_eq hq hpow (units_mem hfit d)
    rcases (meets_toFixedDecimalLossy hv d).returns with ⟨r, hrun, hwrites⟩
    have hsmall : ⌊v.val * (10 : ℚ) ^ d.toNat⌋ ≤ 2 ^ 256 - 1 := by
      rw [hunits]
      exact hle.trans (by decide)
    have hnonneg : 0 ≤ v.val * (10 : ℚ) ^ d.toNat := mul_nonneg (htrunc.nonneg hq) hpow.le
    rcases (writesFixed_iff hwrites).2.2 hnonneg hsmall with ⟨w, b, rfl, hw, hb⟩
    refine ⟨w, b, hrun, hw.trans hunits, ?_⟩
    rintro ⟨n, hn⟩
    -- A whole number of units is a Float, so nothing was cut off.
    have hq' : q = (⌊q * (10 : ℚ) ^ d.toNat⌋ : ℚ) / (10 : ℚ) ^ d.toNat := by
      rw [hn, Int.floor_intCast, ← hn, mul_div_cancel_right₀ _ hpow.ne']
    have hmem : q ∈ Representable := by
      rw [hq']
      exact units_mem hfit d
    apply hb.2
    exact ⟨n, by rw [htrunc.eq_of_mem hmem, hn]⟩

/-- A run that rounds `q`, and pays out as `q` would if it yields a Float. -/
def RunSettles (q : ℚ) (m : Exec (Except RefError Dec)) : Prop :=
  ∃ r, m = .ok r ∧ ∀ v, r = .ok v → Settles q v

theorem runSettles_of_rounds {q : ℚ} {m : Exec (Except RefError Dec)}
    (h : Meets (fun _ => False) m (Rounds q)) : RunSettles q m := by
  rcases h.returns with ⟨r, hr, hround⟩
  refine ⟨r, hr, ?_⟩
  rintro v rfl
  exact hround.settles

/-- Digits lost to rounding are not paid out anyway.  The integer part of a sum, difference,
product or quotient, and its whole units of a token with any number of decimals, are those of the
exact result, whenever they fit a coefficient. -/
theorem settlements_exact (a b : Dec) (ha : IsFloat a) (hb : IsFloat b) :
    RunSettles (a.val + b.val) (add a b) ∧ RunSettles (a.val - b.val) (sub a b) ∧
    RunSettles (a.val * b.val) (mul a b) ∧
    (b.val ≠ 0 → RunSettles (a.val / b.val) (div a b)) := by
  refine ⟨?_, ?_, ?_, ?_⟩
  · exact runSettles_of_rounds (meets_add ha.isOperand hb.isOperand)
  · exact runSettles_of_rounds (meets_sub ha hb)
  · exact runSettles_of_rounds (meets_mul ha hb)
  · intro h0
    have hb0 : b.c ≠ 0 := fun hc => h0 (val_eq_zero_iff.2 hc)
    exact runSettles_of_rounds (meets_div ha hb hb0)

/-- A third of ten tokens. -/
theorem settlements_exact_third :
    RunSettles ((⟨1, 1⟩ : Dec).val / (⟨3, 0⟩ : Dec).val) (div ⟨1, 1⟩ ⟨3, 0⟩) := by
  apply (settlements_exact ⟨1, 1⟩ ⟨3, 0⟩ ⟨by decide, by decide, by decide⟩
    ⟨by decide, by decide, by decide⟩).2.2.2
  norm_num [val]

end Reference
end RainFloat
