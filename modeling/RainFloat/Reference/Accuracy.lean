import RainFloat.Reference.Order

/-!
# Accuracy — how much rounding takes away

An int224 holds 67 digits in full, so a result keeps its 67 leading digits: less than one part in
`10^66` is lost, and never is anything added.  Only products and quotients near the smallest Float
fall short of that, by less than the smallest Float.

* `Rounds.accurate`: the bound for one rounding;
* `operations_accurate`: the bound for every operation;
* `addAll_accurate`: the bound for a sum of any length, which grows with the number of terms.
-/

namespace RainFloat
namespace Reference

open Foundation Dec

/-! ## One rounding -/

/-- `v` is `q` with less than one part in `10^66` taken away. -/
def Close (q v : ℚ) : Prop :=
  |v| ≤ |q| ∧ (v = q ∨ |q - v| * 10 ^ 66 < |q|)

/-- `v` is `q` with less than one part in `10^66`, or less than the smallest Float, taken away. -/
def Accurate (q v : ℚ) : Prop :=
  |v| ≤ |q| ∧ (v = q ∨ |q - v| * 10 ^ 66 < |q| ∨ |q - v| < (10 : ℚ) ^ i32Min)

theorem Close.accurate {q v : ℚ} (h : Close q v) : Accurate q v :=
  ⟨h.1, h.2.imp_right Or.inl⟩

theorem Close.refl (q : ℚ) : Close q q :=
  ⟨le_rfl, Or.inl rfl⟩

/-- With the exponent free, 67 digits are kept. -/
theorem close_of_anyExponent {q u : ℚ} (h : TruncatesTo AnyExponent q u) : Close q u := by
  refine ⟨h.abs_le, ?_⟩
  by_cases hq : q = 0
  · subst hq
    exact Or.inl (truncatesTo_zero h)
  · rw [anyExponent_eq] at h
    right
    simpa using truncation_error_lt (m := 66) (by norm_num) (by decide) (by decide) h hq

/-- Within the extreme Floats, an exponent that is not too small makes a Float value. -/
theorem representable_of_exponent_ge {c e : ℤ} (hc : fitsInt224 c = true) (he : i32Min ≤ e)
    (hreach : ¬ OutOfReach ((c : ℚ) * (10 : ℚ) ^ e)) : (c : ℚ) * (10 : ℚ) ^ e ∈ Representable := by
  rcases le_total e i32Max with hle | hge
  · exact ⟨c, e, hc, he, hle, rfl⟩
  -- Scaled up to the largest exponent, the coefficient still fits.
  have hval : ((c * pow10 (e - i32Max).toNat : ℤ) : ℚ) * (10 : ℚ) ^ i32Max =
      (c : ℚ) * (10 : ℚ) ^ e := aligned_mul_zpow (x := ⟨c, e⟩) hge
  refine ⟨c * pow10 (e - i32Max).toNat, i32Max, fitsInt224_iff.2 ?_, by decide, le_rfl, hval.symm⟩
  rw [OutOfReach, not_or, not_lt, not_lt, ← hval, maxPositive, minNegative, val, val] at hreach
  have hpos := ten_zpow_pos i32Max
  constructor
  · exact_mod_cast le_of_mul_le_mul_right hreach.2 hpos
  · exact_mod_cast le_of_mul_le_mul_right hreach.1 hpos

/-- At the smallest exponent less than one unit is dropped. -/
theorem error_lt_of_small {q v : ℚ} (h : TruncatesTo Representable q v)
    (hq : |q| ≤ (int224Max : ℚ) * (10 : ℚ) ^ i32Min) : |q - v| < (10 : ℚ) ^ i32Min := by
  refine error_lt_of_multiples_mem (ten_zpow_pos i32Min) (fun n hn => ?_) h
  rw [abs_mul, abs_of_pos (ten_zpow_pos i32Min)] at hn
  have habs : |n| ≤ int224Max := by
    exact_mod_cast le_of_mul_le_mul_right (hn.trans hq) (ten_zpow_pos i32Min)
  have hmin : int224Min = -int224Max - 1 := by decide
  refine ⟨n, i32Min, fitsInt224_iff.2 ⟨?_, ?_⟩, le_rfl, by decide, rfl⟩
  · have := neg_abs_le n
    omega
  · exact (le_abs_self n).trans habs

/-- What has an exponent below the smallest is small. -/
theorem abs_le_of_exponent_lt {c e : ℤ} (hc : fitsInt224 c = true) (he : e < i32Min) :
    |(c : ℚ) * (10 : ℚ) ^ e| * 10 ≤ (2 : ℚ) ^ 223 * (10 : ℚ) ^ i32Min := by
  rw [fitsInt224_iff] at hc
  have habs : |(c : ℚ)| ≤ (2 : ℚ) ^ 223 := by
    have : |c| ≤ 2 ^ 223 := by
      unfold int224Min int224Max at hc
      rw [abs_le]
      omega
    exact_mod_cast this
  have hstep : (10 : ℚ) ^ e * 10 ≤ (10 : ℚ) ^ i32Min := by
    have := ten_zpow_le.2 (Int.add_one_le_iff.2 he)
    rwa [ten_zpow_add, zpow_one] at this
  rw [abs_mul, abs_of_pos (ten_zpow_pos e), mul_assoc]
  exact mul_le_mul habs hstep (by positivity) (by positivity)

/-- A rounding within the extreme Floats is accurate. -/
theorem accurate_of_representable {q v : ℚ} (hq : ¬ BeyondExtremes q)
    (h : TruncatesTo Representable q v) : Accurate q v := by
  rcases exists_truncatesTo_anyExponent q with ⟨u, hu⟩
  have hclose := close_of_anyExponent hu
  rw [beyondExtremes_iff hu] at hq
  rcases hu.1 with ⟨c, e, hc, rfl⟩
  by_cases he : i32Min ≤ e
  · -- The exponent was not held back, so neither was the result.
    have hmem := representable_of_exponent_ge hc he hq
    rw [h.unique (hu.restrict representable_subset hmem)]
    exact hclose.accurate
  · -- A result so small has room for all but the digits below the smallest Float.
    rw [not_le] at he
    have hsmall := abs_le_of_exponent_lt hc he
    refine ⟨h.abs_le, Or.inr (Or.inr (error_lt_of_small h ?_))⟩
    have hpos := ten_zpow_pos i32Min
    have hmax : (2 : ℚ) ^ 223 ≤ 2 * (int224Max : ℚ) := by norm_num [int224Max]
    rcases hclose.2 with heq | hlt
    · rw [← heq]
      nlinarith
    · have htri := abs_sub_abs_le_abs_sub q ((c : ℚ) * (10 : ℚ) ^ e)
      nlinarith [abs_nonneg (q - (c : ℚ) * (10 : ℚ) ^ e)]

theorem Rounds.accurate {q : ℚ} {v : Dec} (h : Rounds q (.ok v)) : Accurate q v.val :=
  accurate_of_representable h.1 h.2.2.2

/-! ## Sums

A sum of Floats is a multiple of the smallest Float, so none of it falls below that. -/

theorem exists_multiple_of_representable {z : ℚ} (hz : z ∈ Representable) :
    ∃ n : ℤ, z = (n : ℚ) * (10 : ℚ) ^ i32Min := by
  rcases hz with ⟨c, e, -, he, -, rfl⟩
  exact ⟨c * pow10 (e - i32Min).toNat, (aligned_mul_zpow (x := ⟨c, e⟩) he).symm⟩

theorem exists_multiple_of_sum {a b : Dec} (ha : IsFloat a) (hb : IsFloat b) :
    ∃ n : ℤ, a.val + b.val = (n : ℚ) * (10 : ℚ) ^ i32Min := by
  rcases exists_multiple_of_representable ha.val_mem with ⟨n, hn⟩
  rcases exists_multiple_of_representable hb.val_mem with ⟨m, hm⟩
  exact ⟨n + m, by rw [hn, hm]; push_cast; ring⟩

theorem exists_multiple_of_difference {a b : Dec} (ha : IsFloat a) (hb : IsFloat b) :
    ∃ n : ℤ, a.val - b.val = (n : ℚ) * (10 : ℚ) ^ i32Min := by
  rcases exists_multiple_of_representable ha.val_mem with ⟨n, hn⟩
  rcases exists_multiple_of_representable hb.val_mem with ⟨m, hm⟩
  exact ⟨n - m, by rw [hn, hm]; push_cast; ring⟩

/-- A nonzero multiple of a unit is no smaller. -/
theorem le_abs_of_multiple {q : ℚ} {n e : ℤ} (h : q = (n : ℚ) * (10 : ℚ) ^ e) (hq : q ≠ 0) :
    (10 : ℚ) ^ e ≤ |q| := by
  have hn : n ≠ 0 := by
    intro hn
    apply hq
    rw [h, hn, Int.cast_zero, zero_mul]
  have hone : (1 : ℚ) ≤ |(n : ℚ)| := by exact_mod_cast Int.one_le_abs hn
  rw [h, abs_mul, abs_of_pos (ten_zpow_pos e)]
  exact le_mul_of_one_le_left (ten_zpow_pos e).le hone

theorem Rounds.close_of_multiple {q : ℚ} {v : Dec} (h : Rounds q (.ok v)) {n : ℤ}
    (hq : q = (n : ℚ) * (10 : ℚ) ^ i32Min) : Close q v.val := by
  rcases h.accurate with ⟨hle, heq | hlt | hlt⟩
  · exact ⟨hle, Or.inl heq⟩
  · exact ⟨hle, Or.inr hlt⟩
  · -- Less than one unit apart, two multiples of it are the same.
    rcases exists_multiple_of_representable h.2.2.1.val_mem with ⟨m, hm⟩
    refine ⟨hle, Or.inl ?_⟩
    by_contra hne
    have hdiff : q - v.val = ((n - m : ℤ) : ℚ) * (10 : ℚ) ^ i32Min := by
      rw [hq, hm]
      push_cast
      ring
    have hne' : q - v.val ≠ 0 := sub_ne_zero.2 fun heq => hne heq.symm
    exact absurd hlt (le_abs_of_multiple hdiff hne').not_gt

/-! ## The operations -/

/-- The exact results that `outcomes` rounds. -/
def exacts (a b : Dec) : List ℚ :=
  [a.val + b.val, a.val - b.val, a.val * b.val, a.val / b.val, 1 / a.val, -a.val, |a.val|,
    (towardZero a.val : ℤ), a.val - (towardZero a.val : ℤ), (⌊a.val⌋ : ℤ)]

/-- A run returns, and a value it returns is an accurate rounding of `q`. -/
def ReturnsAccurate (m : Exec (Except RefError Dec)) (q : ℚ) : Prop :=
  ∃ r, m = .ok r ∧ ∀ v, r = .ok v → Accurate q v.val

theorem returnsAccurate_of_rounds {m : Exec (Except RefError Dec)} {q : ℚ}
    (h : Meets (fun _ => False) m (Rounds q)) : ReturnsAccurate m q := by
  rcases h.returns with ⟨r, hr, hround⟩
  refine ⟨r, hr, ?_⟩
  rintro v rfl
  exact hround.accurate

theorem returnsAccurate_of_yields {m : Exec (Except RefError Dec)} {q : ℚ}
    (h : Meets (fun _ => False) m fun r => ∃ v, r = .ok v ∧ IsFloat v ∧ v.val = q) :
    ReturnsAccurate m q := by
  rcases h.returns with ⟨r, hr, v, rfl, -, hv⟩
  refine ⟨_, hr, ?_⟩
  rintro w ⟨⟩
  rw [hv]
  exact (Close.refl q).accurate

theorem returnsAccurate_div {a b : Dec} (ha : IsFloat a) (hb : IsFloat b) :
    ReturnsAccurate (div a b) (a.val / b.val) := by
  -- An error is no value.
  by_cases hb0 : b.c = 0
  · rw [div_zero_divisor a hb0]
    exact ⟨_, rfl, fun _ h => nomatch h⟩
  · exact returnsAccurate_of_rounds (meets_div ha hb hb0)

/-- Every operation on Floats returns, and a value it returns is the exact result with less than
one part in `10^66`, or less than the smallest Float, taken away.  For sums and differences it is
always the former. -/
theorem operations_accurate (a b : Dec) (ha : IsFloat a) (hb : IsFloat b) :
    List.Forall₂ ReturnsAccurate (outcomes a b) (exacts a b) ∧
    (∀ v, add a b = .ok (.ok v) → Close (a.val + b.val) v.val) ∧
    (∀ v, sub a b = .ok (.ok v) → Close (a.val - b.val) v.val) := by
  have hadd := meets_add (T := fun _ => False) ha.isOperand hb.isOperand
  have hsub := meets_sub (T := fun _ => False) ha hb
  refine ⟨?_, fun v hv => ?_, fun v hv => ?_⟩
  · refine .cons (returnsAccurate_of_rounds hadd) <| .cons (returnsAccurate_of_rounds hsub) <|
      .cons (returnsAccurate_of_rounds (meets_mul ha hb)) <| .cons (returnsAccurate_div ha hb) <|
      .cons ?_ <| .cons (returnsAccurate_of_rounds (meets_minus_rounds ha)) <|
      .cons (returnsAccurate_of_rounds (meets_abs_rounds ha)) <|
      .cons (returnsAccurate_of_yields (meets_integer ha)) <|
      .cons (returnsAccurate_of_yields (meets_frac ha)) <|
      .cons (returnsAccurate_of_yields (meets_floor ha)) .nil
    have hinv := returnsAccurate_div isFloat_one ha
    rwa [val_one] at hinv
  · rcases exists_multiple_of_sum ha hb with ⟨n, hn⟩
    exact (hadd.of_eq_ok hv).close_of_multiple hn
  · rcases exists_multiple_of_difference ha hb with ⟨n, hn⟩
    exact (hsub.of_eq_ok hv).close_of_multiple hn

/-- A third, near the smallest Float: the quotient underflows, the sum does not. -/
theorem operations_accurate_min :
    List.Forall₂ ReturnsAccurate (outcomes minPositive ⟨3, 0⟩) (exacts minPositive ⟨3, 0⟩) :=
  (operations_accurate minPositive ⟨3, 0⟩ ⟨by decide, by decide, by decide⟩
    ⟨by decide, by decide, by decide⟩).1

/-! ## Sums of any length -/

/-- Adds the terms one by one, until an addition fails. -/
def addAll (acc : Dec) : List Dec → Exec (Except RefError Dec)
  | [] => pure (.ok acc)
  | x :: xs => do
    let r ← add acc x
    match r with
    | .ok s => addAll s xs
    | .error e => pure (.error e)

/-- The exact value of the sum. -/
def exactTotal (acc : Dec) (xs : List Dec) : ℚ :=
  acc.val + (xs.map val).sum

/-- What a run of additions may return: a Float not above `total` and not below `share` of it, or
an overflow, when `total` is above the largest Float. -/
def SumsUp (total share : ℚ) : Except RefError Dec → Prop
  | .ok s => IsFloat s ∧ 0 ≤ s.val ∧ s.val ≤ total ∧ share * total ≤ s.val
  | .error e => e = .exponentOverflow ∧ maxPositive.val < total

/-- A larger total of which no larger part is asked for. -/
theorem SumsUp.weaken {t t' s s' : ℚ} {r : Except RefError Dec} (h : SumsUp t s r) (ht : t ≤ t')
    (hs : s' * t' ≤ s * t) : SumsUp t' s' r := by
  match r, h with
  | .ok v, ⟨hfloat, h0, hle, hge⟩ => exact ⟨hfloat, h0, hle.trans ht, hs.trans hge⟩
  | .error _, ⟨herr, hover⟩ => exact ⟨herr, hover.trans_le ht⟩

/-- The share of a number that one rounding leaves. -/
def keptShare : ℚ :=
  1 - 1 / 10 ^ 66

theorem keptShare_pos : 0 < keptShare := by
  norm_num [keptShare]

theorem keptShare_le_one : keptShare ≤ 1 := by
  norm_num [keptShare]

theorem Close.share_le {q v : ℚ} (h : Close q v) (hq : 0 ≤ q) (hv : 0 ≤ v) :
    keptShare * q ≤ v := by
  have hle : v ≤ q := by
    have := h.1
    rwa [abs_of_nonneg hv, abs_of_nonneg hq] at this
  rcases h.2 with rfl | hlt
  · exact mul_le_of_le_one_left hq keptShare_le_one
  · rw [abs_of_nonneg (by linarith), abs_of_nonneg hq] at hlt
    rw [keptShare]
    linarith

/-- What overflows exceeds the largest Float. -/
theorem BeyondExtremes.max_lt {q : ℚ} (h : BeyondExtremes q) (hq : 0 ≤ q) :
    maxPositive.val < q := by
  rcases h with ⟨u, hu, hlt | hlt⟩
  · exact hlt.trans_le (hu.le_self hq)
  · exact absurd (hu.nonneg hq) (hlt.trans minNegative_val_neg).not_ge

/-- One addition of nonnegative Floats. -/
theorem meets_add_sumsUp {a b : Dec} (ha : IsFloat a) (hb : IsFloat b) (ha0 : 0 ≤ a.val)
    (hb0 : 0 ≤ b.val) :
    Meets (fun _ => False) (add a b) (SumsUp (a.val + b.val) keptShare) := by
  have hq0 : 0 ≤ a.val + b.val := add_nonneg ha0 hb0
  rcases exists_multiple_of_sum ha hb with ⟨n, hn⟩
  refine (meets_add ha.isOperand hb.isOperand).mono ?_
  intro r hr
  match r, hr with
  | .ok s, hr =>
      have hs0 := hr.2.2.2.nonneg hq0
      have hclose := hr.close_of_multiple hn
      exact ⟨hr.2.2.1, hs0, hr.2.2.2.le_self hq0, hclose.share_le hq0 hs0⟩
  | .error .exponentUnderflow, ⟨_, hne, hlt⟩ =>
      exact absurd (le_abs_of_multiple hn hne) hlt.not_ge
  | .error .exponentOverflow, hover => exact ⟨rfl, BeyondExtremes.max_lt hover hq0⟩

/-- A sum of nonnegative Floats, added one by one in any order, never exceeds the exact sum and
falls short of it by less than one part in `10^66` for each addition.  It overflows only if the
exact sum exceeds the largest Float, and never underflows. -/
theorem addAll_accurate (xs : List Dec) (acc : Dec) (h : ∀ x ∈ acc :: xs, IsFloat x ∧ 0 ≤ x.val) :
    ∃ r, addAll acc xs = .ok r ∧ SumsUp (exactTotal acc xs) (keptShare ^ xs.length) r := by
  -- Over the terms, for any sum so far: the rest of the terms keeps its own share.
  have hrun : ∀ xs : List Dec, ∀ acc : Dec, (∀ x ∈ acc :: xs, IsFloat x ∧ 0 ≤ x.val) →
      Meets (fun _ => False) (addAll acc xs)
        (SumsUp (exactTotal acc xs) (keptShare ^ xs.length)) := by
    intro xs
    induction xs with
    | nil =>
        intro acc h
        rw [List.forall_mem_singleton] at h
        refine ⟨h.1, h.2, ?_, ?_⟩ <;> simp [exactTotal]
    | cons x xs ih =>
        intro acc h
        rw [List.forall_mem_cons, List.forall_mem_cons] at h
        rcases h with ⟨⟨hacc, hacc0⟩, ⟨hx, hx0⟩, hxs⟩
        have hrest : 0 ≤ (xs.map val).sum :=
          List.sum_nonneg (List.forall_mem_map.2 fun y hy => (hxs y hy).2)
        have htotal : exactTotal acc (x :: xs) = acc.val + x.val + (xs.map val).sum := by
          simp [exactTotal, add_assoc]
        refine (meets_add_sumsUp hacc hx hacc0 hx0).bind ?_
        intro r hr
        match r, hr with
        | .error _, ⟨herr, hover⟩ =>
            exact ⟨herr, hover.trans_le (by rw [htotal]; linarith)⟩
        | .ok s, ⟨hs, hs0, hle, hge⟩ =>
            refine (ih s (List.forall_mem_cons.2 ⟨⟨hs, hs0⟩, hxs⟩)).mono fun r' hr' =>
              hr'.weaken (by rw [htotal, exactTotal]; linarith) ?_
            have hkept : keptShare * exactTotal acc (x :: xs) ≤ exactTotal s xs := by
              rw [htotal, exactTotal, mul_add]
              have := mul_le_of_le_one_left hrest keptShare_le_one
              linarith
            calc
              keptShare ^ (x :: xs).length * exactTotal acc (x :: xs)
                  = keptShare ^ xs.length * (keptShare * exactTotal acc (x :: xs)) := by
                    rw [List.length_cons, pow_succ]; ring
              _ ≤ keptShare ^ xs.length * exactTotal s xs :=
                    mul_le_mul_of_nonneg_left hkept (pow_nonneg keptShare_pos.le _)
  exact (hrun xs acc h).returns

/-- Two thirds, to the digits a Float holds, and a third. -/
theorem addAll_accurate_thirds :
    ∃ r, addAll ⟨666666, -6⟩ [⟨333333, -6⟩, ⟨1, -6⟩] = .ok r ∧
      SumsUp (exactTotal ⟨666666, -6⟩ [⟨333333, -6⟩, ⟨1, -6⟩]) (keptShare ^ 2) r := by
  refine addAll_accurate _ _ ?_
  have hmem : ∀ c : ℤ, fitsInt224 c = true → 0 ≤ c →
      IsFloat ⟨c, -6⟩ ∧ 0 ≤ (⟨c, -6⟩ : Dec).val :=
    fun c hc h0 => ⟨⟨hc, (by decide : i32Min ≤ -6), (by decide : -6 ≤ i32Max)⟩,
      val_nonneg_iff.2 h0⟩
  rw [List.forall_mem_cons, List.forall_mem_cons, List.forall_mem_singleton]
  exact ⟨hmem _ (by decide) (by decide), hmem _ (by decide) (by decide),
    hmem _ (by decide) (by decide)⟩

end Reference
end RainFloat
