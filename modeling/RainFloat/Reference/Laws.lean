import RainFloat.Reference.Difference

/-!
# Laws — identities that survive rounding

Addition and multiplication round, so few of the laws of arithmetic are left.  These are.

* `add_comm_run`: sums and products do not depend on the order of the operands, not even in their
  representation;
* `exact_laws`: neutral elements, cancellation, and negating twice;
* `parts_recombine`: the integer part, the fraction and the floor of a Float belong together.
-/

namespace RainFloat
namespace Reference

open Foundation Dec

/-! ## Exact results -/

/-- A run returns a Float of the value `q`. -/
def Yields (m : Exec (Except RefError Dec)) (q : ℚ) : Prop :=
  ∃ v, m = .ok (.ok v) ∧ IsFloat v ∧ v.val = q

theorem yields_of_meets {m : Exec (Except RefError Dec)} {q : ℚ}
    (h : Meets (fun _ => False) m fun r => ∃ v, r = .ok v ∧ IsFloat v ∧ v.val = q) :
    Yields m q := by
  rcases h.returns with ⟨r, hr, v, rfl, hv⟩
  exact ⟨v, hr, hv⟩

/-- A rounding of a Float value changes nothing. -/
theorem yields_of_rounds {m : Exec (Except RefError Dec)} {q q' : ℚ}
    (h : Meets (fun _ => False) m (Rounds q)) (hq : q = q') (hmem : q' ∈ Representable) :
    Yields m q' := by
  subst hq
  exact yields_of_meets (h.mono fun r hr => hr.exact hmem)

/-! ## Commutativity -/

/-- What `add` rounds. -/
def roundedSum (a b : Dec) : Dec :=
  if a.c = 0 then b
  else if b.c = 0 then a
  else if 400 < |a.e - b.e| then if |a.val| < |b.val| then nudged b a else nudged a b
  else exactSum a b

theorem add_eq_arithmetic {a b : Dec} (ha : IsFloat a) (hb : IsFloat b) :
    add a b = arithmetic (roundedSum a b) := by
  have hexact := (meets_addExact (T := fun _ => False)
    (Or.inr ⟨ha.i64Safe, hb.i64Safe⟩)).eq_ok
  rw [add, hexact, roundedSum]
  -- The branches of `add`, in its order.
  by_cases ha0 : a.c = 0
  · simp only [ha0, if_true]
    rfl
  by_cases hb0 : b.c = 0
  · simp only [ha0, hb0, if_true, if_false]
    rfl
  by_cases hgap : 400 < |a.e - b.e|
  · have hnudge := (meets_nudge (T := fun _ => False) ha.isOperand hb.isOperand ha0 hb0).eq_ok
    simp only [ha0, hb0, hgap, if_true, if_false]
    change (do let sum ← nudge a b; arithmetic sum) = _
    rw [hnudge]
    rfl
  · simp only [ha0, hb0, hgap, if_false]
    rfl

/-- Operands far apart do not have the same magnitude. -/
theorem abs_val_ne_of_far {a b : Dec} (ha : IsFloat a) (hb : IsFloat b) (ha0 : a.c ≠ 0)
    (hb0 : b.c ≠ 0) (hgap : 400 < |a.e - b.e|) : |a.val| ≠ |b.val| := by
  rcases lt_or_ge a.e b.e with hlt | hge
  · have hfar : a.e + 400 < b.e := by
      rw [abs_of_neg (by omega)] at hgap
      omega
    exact (abs_lt_abs_of_far hb0 ha0 ha.digits_le hfar).ne
  · have hfar : b.e + 400 < a.e := by
      rw [abs_of_nonneg (by omega)] at hgap
      omega
    exact (abs_lt_abs_of_far ha0 hb0 hb.digits_le hfar).ne'

theorem exactSum_comm (a b : Dec) : exactSum a b = exactSum b a := by
  rw [exactSum, exactSum, min_comm b.e a.e, add_comm]

/-- The order of the operands does not matter to a sum, bit for bit. -/
theorem add_comm_run {a b : Dec} (ha : IsFloat a) (hb : IsFloat b) : add a b = add b a := by
  rw [add_eq_arithmetic ha hb, add_eq_arithmetic hb ha]
  by_cases ha0 : a.c = 0
  · by_cases hb0 : b.c = 0
    · -- Either zero packs to the same zero.
      rw [roundedSum, roundedSum, if_pos ha0, if_pos hb0, arithmetic, arithmetic, pack, pack,
        if_pos (isZero_iff.2 hb0), if_pos (isZero_iff.2 ha0)]
    · rw [roundedSum, roundedSum, if_pos ha0, if_neg hb0, if_pos ha0]
  by_cases hb0 : b.c = 0
  · rw [roundedSum, roundedSum, if_neg ha0, if_pos hb0, if_pos hb0]
  congr 1
  rw [roundedSum, roundedSum, if_neg ha0, if_neg hb0, if_neg hb0, if_neg ha0, abs_sub_comm b.e a.e]
  by_cases hgap : 400 < |a.e - b.e|
  · have hne := abs_val_ne_of_far ha hb ha0 hb0 hgap
    rw [if_pos hgap, if_pos hgap]
    rcases lt_or_gt_of_ne hne with hlt | hgt
    · rw [if_pos hlt, if_neg hlt.not_gt]
    · rw [if_neg hgt.not_gt, if_pos hgt]
  · rw [if_neg hgap, if_neg hgap, exactSum_comm]

theorem mul_comm_run (a b : Dec) : mul a b = mul b a := by
  rw [mul, mul, add_comm a.e b.e, mul_comm a.c b.c]

/-! ## Neutral elements and cancellation -/

theorem one_mem_representable : (1 : ℚ) ∈ Representable :=
  val_one ▸ isFloat_one.val_mem

/-- The laws that hold exactly of all Floats: sums and products do not depend on the order of their
operands, zero and one are neutral, a Float less itself is zero and divided by itself is one, and
negating twice changes nothing unless the coefficient is the one without a counterpart. -/
theorem exact_laws (a b : Dec) (ha : IsFloat a) (hb : IsFloat b) :
    add a b = add b a ∧ mul a b = mul b a ∧
    Yields (add a zero) a.val ∧ Yields (sub a zero) a.val ∧ Yields (sub a a) 0 ∧
    Yields (mul a ⟨1, 0⟩) a.val ∧ Yields (mul a zero) 0 ∧ Yields (div a ⟨1, 0⟩) a.val ∧
    (a.val ≠ 0 → Yields (div a a) 1 ∧ Yields (div zero a) 0) ∧
    (a.c ≠ int224Min → ∃ m, minus a = .ok (.ok m) ∧ Yields (minus m) a.val ∧
      Yields (add a m) 0) := by
  have hmem := ha.val_mem
  -- Each of the exact results is a Float value, and rounding leaves these alone.
  refine ⟨add_comm_run ha hb, mul_comm_run a b, ?_, ?_, ?_, ?_, ?_, ?_, fun h0 => ⟨?_, ?_⟩,
    fun hc => ?_⟩
  · exact yields_of_rounds (meets_add ha.isOperand isFloat_zero.isOperand) (by simp) hmem
  · exact yields_of_rounds (meets_sub ha isFloat_zero) (by simp) hmem
  · exact yields_of_rounds (meets_sub ha ha) (sub_self _) zero_mem_representable
  · exact yields_of_rounds (meets_mul ha isFloat_one) (by simp) hmem
  · exact yields_of_rounds (meets_mul ha isFloat_zero) (by simp) zero_mem_representable
  · exact yields_of_rounds (meets_div ha isFloat_one (by decide)) (by simp) hmem
  · exact yields_of_rounds (meets_div ha ha fun hc => h0 (val_eq_zero_iff.2 hc)) (div_self h0)
      one_mem_representable
  · exact yields_of_rounds (meets_div isFloat_zero ha fun hc => h0 (val_eq_zero_iff.2 hc))
      (by simp) zero_mem_representable
  · rcases (meets_minus ha).returns with ⟨r, hr, m, rfl, hm, hval, -⟩
    have hmval := hval hc
    refine ⟨m, hr, ?_, ?_⟩
    · exact yields_of_rounds (meets_minus_rounds hm) (by rw [hmval, neg_neg]) hmem
    · exact yields_of_rounds (meets_add ha.isOperand hm.isOperand) (by rw [hmval, add_neg_cancel])
        zero_mem_representable

/-- The largest Float and the smallest. -/
theorem exact_laws_extremes : add maxPositive minNegative = add minNegative maxPositive :=
  (exact_laws maxPositive minNegative ⟨by decide, by decide, by decide⟩
    ⟨by decide, by decide, by decide⟩).1

/-! ## The parts of a Float -/

/-- A Float is put together exactly from its integer part and its fraction, and each of the two is
what is left when the other is taken away.  An integer part has no fraction and a fraction no
integer part.  The floor is the integer part, or one less for a negative Float with a fraction. -/
theorem parts_recombine (a : Dec) (ha : IsFloat a) :
    ∃ i f l, integer a = .ok (.ok i) ∧ frac a = .ok (.ok f) ∧ floor a = .ok (.ok l) ∧
      Yields (add i f) a.val ∧ Yields (sub a i) f.val ∧ Yields (sub a f) i.val ∧
      Yields (integer i) i.val ∧ Yields (frac i) 0 ∧ Yields (integer f) 0 ∧
      Yields (frac f) f.val ∧ Yields (floor l) l.val ∧
      (0 ≤ a.val ∨ f.val = 0 → l.val = i.val) ∧
      (a.val < 0 → f.val ≠ 0 → Yields (sub i ⟨1, 0⟩) l.val) := by
  rcases yields_of_meets (meets_integer ha) with ⟨i, hi, hifloat, hival⟩
  rcases yields_of_meets (meets_frac ha) with ⟨f, hf, hffloat, hfval⟩
  rcases yields_of_meets (meets_floor ha) with ⟨l, hl, hlfloat, hlval⟩
  have hbounds := sub_towardZero_bounds a.val
  have hsum : i.val + f.val = a.val := by rw [hival, hfval]; ring
  have hfzero : towardZero f.val = 0 := towardZero_of_abs_lt_one (hfval ▸ hbounds.1)
  refine ⟨i, f, l, hi, hf, hl, ?_, ?_, ?_, ?_, ?_, ?_, ?_, ?_, fun h => ?_, fun hneg hne => ?_⟩
  · exact yields_of_rounds (meets_add hifloat.isOperand hffloat.isOperand) hsum ha.val_mem
  · exact yields_of_rounds (meets_sub ha hifloat) (by linarith) hffloat.val_mem
  · exact yields_of_rounds (meets_sub ha hffloat) (by linarith) hifloat.val_mem
  · simpa [hival] using yields_of_meets (meets_integer hifloat)
  · simpa [hival] using yields_of_meets (meets_frac hifloat)
  · simpa [hfzero] using yields_of_meets (meets_integer hffloat)
  · simpa [hfzero] using yields_of_meets (meets_frac hffloat)
  · simpa [hlval] using yields_of_meets (meets_floor hlfloat)
  · rw [hlval, hival]
    rcases h with h0 | h0
    · rw [towardZero_of_nonneg h0]
    · -- Without a fraction the value is the integer part.
      have hint : a.val = (towardZero a.val : ℤ) := by rw [← hival, ← hsum, h0, add_zero]
      rw [hint, Int.floor_intCast, towardZero_intCast]
  · -- A negative number with a fraction is between two integers, the floor the lower one.
    have hint : ((towardZero a.val : ℤ) : ℚ) ≠ a.val := by
      intro heq
      rw [hfval, heq, sub_self] at hne
      exact hne rfl
    refine yields_of_rounds (meets_sub hifloat isFloat_one) ?_ hlfloat.val_mem
    rw [hlval, hival, floor_eq_towardZero_sub_one hneg hint, val_one]
    push_cast
    ring

/-- Minus seven and a quarter. -/
theorem parts_recombine_quarter :
    ∃ i f, integer ⟨-725, -2⟩ = .ok (.ok i) ∧ frac ⟨-725, -2⟩ = .ok (.ok f) ∧
      Yields (add i f) (⟨-725, -2⟩ : Dec).val := by
  rcases parts_recombine ⟨-725, -2⟩ ⟨by decide, by decide, by decide⟩
    with ⟨i, f, l, hi, hf, -, hsum, -⟩
  exact ⟨i, f, hi, hf, hsum⟩

end Reference
end RainFloat
