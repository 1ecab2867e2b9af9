import RainFloat.Reference.Accuracy

/-!
# Difference — what subtraction tells about its operands

* `sub_decides_order`: the difference of two Floats never underflows, it has the sign of their
  comparison, and it overflows only for operands of opposite signs;
* `sub_exact_of_near`: the difference of operands within a factor of two is exact.
-/

namespace RainFloat
namespace Reference

open Foundation Dec

/-! ## The sign of a difference -/

/-- A result compares with zero as the exact value does. -/
theorem Rounds.compare_zero {q : ℚ} {v : Dec} (h : Rounds q (.ok v)) :
    compare v.val 0 = compare q 0 := by
  -- Rounding keeps the sign, and only zero becomes zero.
  rcases lt_trichotomy q 0 with hq | rfl | hq
  · have hv := lt_of_le_of_ne (h.2.2.2.nonpos hq.le) (h.2.1 hq.ne)
    rw [compare_lt_iff_lt.2 hq, compare_lt_iff_lt.2 hv]
  · rw [truncatesTo_zero h.2.2.2]
  · have hv := lt_of_le_of_ne (h.2.2.2.nonneg hq.le) (h.2.1 hq.ne').symm
    rw [compare_gt_iff_gt.2 hq, compare_gt_iff_gt.2 hv]

theorem compare_sub_zero (p q : ℚ) : compare (p - q) 0 = compare p q := by
  rcases lt_trichotomy p q with h | rfl | h
  · rw [compare_lt_iff_lt.2 h, compare_lt_iff_lt.2 (by linarith)]
  · simp
  · rw [compare_gt_iff_gt.2 h, compare_gt_iff_gt.2 (by linarith)]

/-- Nothing between zero and a Float value is out of reach. -/
theorem not_beyondExtremes_of_between {q z : ℚ} (hz : z ∈ Representable)
    (h : 0 ≤ q ∧ q ≤ z ∨ z ≤ q ∧ q ≤ 0) : ¬ BeyondExtremes q := by
  rintro ⟨u, hu, hout⟩
  have hbounds := mem_representable_bounds hz
  rcases h with ⟨h0, hle⟩ | ⟨hle, h0⟩
  · rcases hout with hlt | hlt
    · exact absurd ((hu.le_self h0).trans (hle.trans hbounds.2)) hlt.not_ge
    · exact absurd (hu.nonneg h0) (hlt.trans minNegative_val_neg).not_ge
  · rcases hout with hlt | hlt
    · exact absurd (hu.nonpos h0) (maxPositive_val_pos.trans hlt).not_ge
    · exact absurd (hbounds.1.trans (hle.trans (hu.self_le h0))) hlt.not_ge

/-- The smallest Float, negated, is within reach: it rounds to the largest. -/
theorem not_beyondExtremes_le_neg_min {q : ℚ} (h0 : 0 ≤ q) (hle : q ≤ -minNegative.val) :
    ¬ BeyondExtremes q := by
  intro hq
  have hmin : -minNegative.val = -(int224Min : ℚ) * (10 : ℚ) ^ i32Max := by
    rw [minNegative, val, neg_mul]
  have hbeyond := hq.of_le h0 hle
  rw [hmin, beyondExtremes_iff (truncatesTo_neg_int224Min i32Max)] at hbeyond
  rcases hbeyond with hlt | hlt
  · exact lt_irrefl _ hlt
  · exact absurd (minNegative_val_neg.trans maxPositive_val_pos) hlt.not_gt

/-- A difference of operands on the same side of zero is within reach. -/
theorem not_beyondExtremes_sub {a b : Dec} (ha : IsFloat a) (hb : IsFloat b)
    (hsame : 0 ≤ a.val * b.val) : ¬ BeyondExtremes (a.val - b.val) := by
  have hbounds := mem_representable_bounds hb.val_mem
  have hmem : (-maxPositive.val) ∈ Representable :=
    ⟨-int224Max, i32Max, by decide, by decide, le_rfl, by rw [maxPositive, val]; push_cast; ring⟩
  -- The difference lies between zero and one of the operands, or the opposite of the other.
  rcases le_total 0 (a.val - b.val) with hq | hq
  · rcases le_total 0 b.val with hb0 | hb0
    · exact not_beyondExtremes_of_between ha.val_mem (Or.inl ⟨hq, by linarith⟩)
    · have ha0 : a.val ≤ 0 ∨ b.val = 0 := by
        rcases hb0.lt_or_eq with hlt | heq
        · exact Or.inl (nonpos_of_mul_nonneg_left hsame hlt)
        · exact Or.inr heq
      rcases ha0 with ha0 | hb0'
      · exact not_beyondExtremes_le_neg_min hq (by linarith)
      · exact not_beyondExtremes_of_between ha.val_mem (Or.inl ⟨hq, by linarith⟩)
  · rcases le_total 0 a.val with ha0 | ha0
    · exact not_beyondExtremes_of_between hmem (Or.inr ⟨by linarith, hq⟩)
    · have hb0 : b.val ≤ 0 ∨ a.val = 0 := by
        rcases ha0.lt_or_eq with hlt | heq
        · exact Or.inl (nonpos_of_mul_nonneg_right hsame hlt)
        · exact Or.inr heq
      rcases hb0 with hb0 | ha0'
      · exact not_beyondExtremes_of_between ha.val_mem (Or.inr ⟨by linarith, hq⟩)
      · exact not_beyondExtremes_of_between hmem (Or.inr ⟨by linarith, hq⟩)

/-- Subtracting decides the comparison of two Floats.  The difference never underflows; where it is
a Float, that compares with zero as the operands compare with each other, so it is zero exactly for
equal values; and it overflows only where the signs of the operands already decide. -/
theorem sub_decides_order (a b : Dec) (ha : IsFloat a) (hb : IsFloat b) :
    ∃ r, sub a b = .ok r ∧
      ((∃ v, r = .ok v ∧ v.cmpValue zero = a.cmpValue b ∧ (v.val = 0 ↔ a.val = b.val)) ∨
        r = .error .exponentOverflow ∧ a.val * b.val < 0) := by
  rcases (meets_sub ha hb).returns with ⟨r, hr, hround⟩
  refine ⟨r, hr, ?_⟩
  match r, hround with
  | .ok v, hround =>
      have hcompare := hround.compare_zero
      rw [compare_sub_zero] at hcompare
      refine Or.inl ⟨v, rfl, ?_, ?_⟩
      · have hv := hround.2.2.1
        rw [(meets_cmpValue (Or.inr ⟨hv.i64Safe, isFloat_zero.i64Safe⟩)).eq_ok,
          (meets_cmpValue (Or.inr ⟨ha.i64Safe, hb.i64Safe⟩)).eq_ok, val_zero, hcompare]
      · rw [← compare_eq_iff_eq, hcompare, compare_eq_iff_eq]
  | .error .exponentUnderflow, ⟨_, hne, hlt⟩ =>
      -- A difference is a multiple of the smallest Float.
      rcases exists_multiple_of_difference ha hb with ⟨n, hn⟩
      exact absurd (le_abs_of_multiple hn hne) hlt.not_ge
  | .error .exponentOverflow, hover =>
      refine Or.inr ⟨rfl, ?_⟩
      by_contra hsame
      exact not_beyondExtremes_sub ha hb (not_lt.1 hsame) hover

/-- The extreme Floats are too far apart for their difference. -/
theorem sub_decides_order_extremes :
    ∃ r, sub maxPositive minNegative = .ok r ∧
      ((∃ v, r = .ok v ∧ v.cmpValue zero = maxPositive.cmpValue minNegative ∧
          (v.val = 0 ↔ maxPositive.val = minNegative.val)) ∨
        r = .error .exponentOverflow ∧ maxPositive.val * minNegative.val < 0) :=
  sub_decides_order maxPositive minNegative ⟨by decide, by decide, by decide⟩
    ⟨by decide, by decide, by decide⟩

/-! ## Exact differences -/

/-- Coefficients of the same sign and within a factor of two differ by a coefficient, unless one of
them is twice the smallest. -/
theorem fits_sub_of_near {m n : ℤ} (hsame : 0 ≤ m ∧ 0 ≤ n ∨ m ≤ 0 ∧ n ≤ 0) (hmn : |m| ≤ 2 * |n|)
    (hnm : |n| ≤ 2 * |m|)
    (hfit : fitsInt224 m = true ∧ n ≠ 2 * int224Min ∨ fitsInt224 n = true) :
    fitsInt224 (m - n) = true := by
  simp only [fitsInt224_iff] at hfit ⊢
  unfold int224Min int224Max at hfit ⊢
  rcases hsame with ⟨hm, hn⟩ | ⟨hm, hn⟩
  · rw [abs_of_nonneg hm, abs_of_nonneg hn] at hmn hnm
    omega
  · rw [abs_of_nonpos hm, abs_of_nonpos hn] at hmn hnm
    omega

/-- Twice the smallest coefficient is not a coefficient at any larger exponent. -/
theorem mul_pow10_ne_two_mul_min {c : ℤ} (hc : fitsInt224 c = true) (k : ℕ) :
    c * pow10 k ≠ 2 * int224Min := by
  intro heq
  rw [fitsInt224_iff] at hc
  cases k with
  | zero =>
      unfold pow10 int224Min at heq
      unfold int224Min int224Max at hc
      omega
  | succ k =>
      -- At a larger exponent it would be a multiple of ten.
      have hdvd : (10 : ℤ) ∣ 2 * int224Min :=
        heq ▸ Dvd.dvd.mul_left (dvd_pow_self 10 k.succ_ne_zero) c
      exact absurd hdvd (by decide)

/-- The difference of Float values of the same sign within a factor of two is a Float value. -/
theorem sub_mem_of_near {a b : Dec} (ha : IsFloat a) (hb : IsFloat b) (hsame : 0 ≤ a.val * b.val)
    (hab : |a.val| ≤ 2 * |b.val|) (hba : |b.val| ≤ 2 * |a.val|) :
    a.val - b.val ∈ Representable := by
  have hpos := ten_zpow_pos (min a.e b.e)
  have hA := aligned_mul_zpow (x := a) (e := min a.e b.e) (min_le_left _ _)
  have hB := aligned_mul_zpow (x := b) (e := min a.e b.e) (min_le_right _ _)
  -- One of the two aligned coefficients is the original one.
  have hfit : fitsInt224 (a.c * pow10 (a.e - min a.e b.e).toNat) = true ∧
      b.c * pow10 (b.e - min a.e b.e).toNat ≠ 2 * int224Min ∨
      fitsInt224 (b.c * pow10 (b.e - min a.e b.e).toNat) = true := by
    rcases le_total a.e b.e with hle | hle
    · left
      refine ⟨?_, mul_pow10_ne_two_mul_min hb.coefficient _⟩
      rw [min_eq_left hle, sub_self]
      simpa [pow10] using ha.coefficient
    · right
      rw [min_eq_right hle, sub_self]
      simpa [pow10] using hb.coefficient
  generalize a.c * pow10 (a.e - min a.e b.e).toNat = m at hA hfit
  generalize b.c * pow10 (b.e - min a.e b.e).toNat = n at hB hfit
  rw [← hA, ← hB] at hsame hab hba ⊢
  rw [abs_mul, abs_mul, abs_of_pos hpos, ← mul_assoc] at hab hba
  have hmn : |m| ≤ 2 * |n| := by
    exact_mod_cast le_of_mul_le_mul_right hab hpos
  have hnm : |n| ≤ 2 * |m| := by
    exact_mod_cast le_of_mul_le_mul_right hba hpos
  have hsign : 0 ≤ m * n := by
    rw [mul_mul_mul_comm] at hsame
    exact_mod_cast nonneg_of_mul_nonneg_left hsame (mul_pos hpos hpos)
  refine ⟨m - n, min a.e b.e, fits_sub_of_near (mul_nonneg_iff.1 hsign) hmn hnm hfit, ?_, ?_, ?_⟩
  · exact le_min ha.exponent_ge hb.exponent_ge
  · exact (min_le_left _ _).trans ha.exponent_le
  · push_cast
    ring

/-- Between operands of the same sign within a factor of two nothing is lost: the difference is
exact. -/
theorem sub_exact_of_near (a b : Dec) (ha : IsFloat a) (hb : IsFloat b)
    (hsame : 0 ≤ a.val * b.val) (hab : |a.val| ≤ 2 * |b.val|) (hba : |b.val| ≤ 2 * |a.val|) :
    ∃ v, sub a b = .ok (.ok v) ∧ v.val = a.val - b.val := by
  rcases (meets_sub ha hb).returns with ⟨r, hr, hround⟩
  rcases hround.exact (sub_mem_of_near ha hb hsame hab hba) with ⟨v, rfl, -, hv⟩
  exact ⟨v, hr, hv⟩

/-- The smallest Float taken from half of it, up to the last digit. -/
theorem sub_exact_of_near_min :
    ∃ v, sub ⟨-(2 ^ 222), 0⟩ ⟨int224Min, 0⟩ = .ok (.ok v) ∧
      v.val = (⟨-(2 ^ 222), 0⟩ : Dec).val - (⟨int224Min, 0⟩ : Dec).val := by
  refine sub_exact_of_near _ _ ⟨by decide, by decide, by decide⟩ ⟨by decide, by decide, by decide⟩
    ?_ ?_ ?_ <;> norm_num [val, int224Min]

end Reference
end RainFloat
