import RainFloat.Reference.FixedDecimal
import RainFloat.Reference.Unary

/-!
# FixedPoint — fixed-decimal conversions are truncations

With `d` decimals, the integer `v` stands for `v × 10^-d`.

* `meets_fromFixedDecimalLossy`: reading a fixed-point value truncates it to a Float, and cannot
  leave the exponent range;
* `meets_toFixedDecimalLossy`: writing a Float with `d` decimals takes the floor of `x × 10^d`;
* `exists_u256_of_truncated`: what the first one leaves is still a whole number of units, so the
  second one gives it back.
-/

namespace RainFloat
namespace Reference

open Foundation Dec

/-! ## From fixed point -/

/-- The decimal a fixed-point value stands for. -/
def fixedValue (v : U256) (d : UInt8) : Dec :=
  ⟨u256ToBig v, -(d.toNat : ℤ)⟩

theorem u256ToBig_bounds (v : U256) : 0 ≤ u256ToBig v ∧ u256ToBig v < 2 ^ 256 := by
  have := v.isLt
  unfold u256ToBig
  omega

theorem decimals_le (d : UInt8) : d.toNat ≤ 255 := by
  have := UInt8.toNat_lt d
  omega

theorem fixedValue_val (v : U256) (d : UInt8) :
    (fixedValue v d).val = (v.val : ℚ) / (10 : ℚ) ^ d.toNat := by
  simp [fixedValue, val, u256ToBig, zpow_neg, div_eq_mul_inv]

theorem fixedValue_val_nonneg (v : U256) (d : UInt8) : 0 ≤ (fixedValue v d).val := by
  rw [fixedValue_val]
  positivity

theorem fixedValue_packSafe (v : U256) (d : UInt8) : PackSafe (fixedValue v d) := by
  have hv := u256ToBig_bounds v
  have hd := decimals_le d
  have hdigits : digits (u256ToBig v) ≤ 78 := by
    apply digits_le
    have : (2 : ℕ) ^ 256 < 10 ^ 78 := by norm_num
    omega
  refine ⟨?_, ?_, ?_⟩ <;> dsimp only [fixedValue] <;> omega

/-- A fixed-point value is far below the largest Float. -/
theorem not_beyondExtremes_fixedValue (v : U256) (d : UInt8) :
    ¬ BeyondExtremes (fixedValue v d).val := by
  have h0 := fixedValue_val_nonneg v d
  have hle : (fixedValue v d).val ≤ maxPositive.val := by
    -- A `U256` has at most 78 digits, and decimals only make it smaller.
    have hmax : (2 : ℚ) ^ 256 ≤ maxPositive.val := by
      have h1 : (10 : ℚ) ^ (78 : ℤ) ≤ (10 : ℚ) ^ i32Max := ten_zpow_le.2 (by decide)
      have h2 : (1 : ℚ) ≤ int224Max := by exact_mod_cast (by decide : 1 ≤ int224Max)
      have h3 : (2 : ℚ) ^ 256 ≤ (10 : ℚ) ^ (78 : ℤ) := by norm_num
      have h4 := ten_zpow_pos i32Max
      dsimp only [val, maxPositive]
      nlinarith
    have hv : (v.val : ℚ) ≤ 2 ^ 256 := by exact_mod_cast v.isLt.le
    have hd : (1 : ℚ) ≤ 10 ^ d.toNat := one_le_pow₀ (by norm_num)
    rw [fixedValue_val]
    exact ((div_le_self (by positivity) hd).trans hv).trans hmax
  rintro ⟨u, hu, hout | hout⟩
  · have := hu.abs_le
    rw [abs_of_nonneg (hu.nonneg h0), abs_of_nonneg h0] at this
    linarith
  · linarith [hu.nonneg h0, minNegative_val_neg]

/-- Nor does a nonzero one come near the smallest. -/
theorem smallest_le_fixedValue {v : U256} {d : UInt8} (h : (fixedValue v d).val ≠ 0) :
    ¬ |(fixedValue v d).val| < (10 : ℚ) ^ i32Min := by
  have hd := decimals_le d
  have hv : (1 : ℚ) ≤ v.val := by
    have hne : v.val ≠ 0 := by
      intro h0
      rw [fixedValue_val, h0] at h
      simp at h
    exact_mod_cast Nat.pos_of_ne_zero hne
  have hle : (10 : ℚ) ^ i32Min ≤ (10 : ℚ) ^ (-(d.toNat : ℤ)) :=
    ten_zpow_le.2 (by unfold i32Min; omega)
  have hpos := ten_zpow_pos (-(d.toNat : ℤ))
  rw [abs_of_nonneg (fixedValue_val_nonneg v d), not_lt, fixedValue, val]
  simp only [u256ToBig, Int.cast_natCast]
  nlinarith

section Specs

variable {T : Panic → Prop}

/-- Reading a fixed-point value: the `unreachable!` arm is not reached. -/
theorem meets_fromFixedDecimalLossy (v : U256) (d : UInt8) :
    Meets T (fromFixedDecimalLossy v d) fun r =>
      IsFloat r.1 ∧ TruncatesTo Representable (fixedValue v d).val r.1.val ∧
        (r.2 = true ↔ r.1.val = (fixedValue v d).val) := by
  have hd := decimals_le d
  refine (meets_i64 (Or.inr ⟨by omega, by omega⟩)).bind_eq ?_
  refine (meets_pack (Or.inr (fixedValue_packSafe v d))).bind ?_
  intro p hp
  cases p with
  | value f b =>
      exact ⟨hp.2.2.1, hp.2.2.2.1, hp.2.2.2.2⟩
  | underflow =>
      exact absurd hp.2.2 (smallest_le_fixedValue hp.2.1)
  | overflow =>
      exact absurd hp (not_beyondExtremes_fixedValue v d)

theorem meets_fromFixedDecimalLossless (v : U256) (d : UInt8) :
    Meets T (fromFixedDecimalLossless v d) fun r =>
      (∀ f, r = .ok f → IsFloat f ∧ f.val = (fixedValue v d).val) ∧
        ((fixedValue v d).val ∈ Representable → ∃ f, r = .ok f) := by
  refine (meets_fromFixedDecimalLossy v d).bind ?_
  rintro ⟨f, b⟩ ⟨hf, htrunc, hb⟩
  cases b with
  | true =>
      refine ⟨?_, fun _ => ⟨f, rfl⟩⟩
      rintro _ ⟨⟩
      exact ⟨hf, hb.1 rfl⟩
  | false =>
      refine ⟨fun _ h => (by cases h), fun hmem => ?_⟩
      exact absurd (hb.2 (htrunc.eq_of_mem hmem)) (by simp)

end Specs

/-! ## To fixed point -/

/-- The outcome of writing `q` as a number of units. -/
def WritesFixed (q : ℚ) : Except RefError (U256 × Bool) → Prop
  | .ok (v, lossless) => 0 ≤ q ∧ (v.val : ℤ) = ⌊q⌋ ∧ (lossless = true ↔ (v.val : ℚ) = q)
  | .error .negativeFixedDecimalConversion => q < 0
  | .error .fixedDecimalOverflow => 0 ≤ q ∧ 2 ^ 256 - 1 < ⌊q⌋
  | .error _ => False

/-- The outcome of writing `q` losslessly. -/
def WritesFixedLossless (q : ℚ) : Except RefError U256 → Prop
  | .ok v => (v.val : ℚ) = q
  | .error _ => ∀ v : U256, (v.val : ℚ) ≠ q

/-- Whole units in range are written as they are. -/
theorem eq_ok_of_writesFixed_natCast {w : U256} {r : Except RefError (U256 × Bool)}
    (h : WritesFixed (w.val : ℚ) r) : r = .ok (w, true) := by
  match r, h with
  | .ok (v, true), ⟨_, hv, _⟩ =>
      have : v = w := Fin.ext (by simpa using hv)
      rw [this]
  | .ok (v, false), ⟨_, hv, hl⟩ =>
      have : v = w := Fin.ext (by simpa using hv)
      exact absurd (hl.2 (by rw [this])) (by simp)
  | .error .negativeFixedDecimalConversion, hneg =>
      exact absurd hneg (not_lt.2 (by positivity))
  | .error .fixedDecimalOverflow, ⟨_, hlt⟩ =>
      have := w.isLt
      rw [Int.floor_natCast] at hlt
      omega

/-- Each error occurs exactly for the values it is meant for, and every other value is written. -/
theorem writesFixed_iff {q : ℚ} {r : Except RefError (U256 × Bool)} (h : WritesFixed q r) :
    (r = .error .negativeFixedDecimalConversion ↔ q < 0) ∧
    (r = .error .fixedDecimalOverflow ↔ 0 ≤ q ∧ 2 ^ 256 - 1 < ⌊q⌋) ∧
    (0 ≤ q → ⌊q⌋ ≤ 2 ^ 256 - 1 →
      ∃ w b, r = .ok (w, b) ∧ (w.val : ℤ) = ⌊q⌋ ∧ (b = true ↔ ∃ n : ℤ, q = n)) := by
  match r, h with
  | .ok (w, b), ⟨h0, hw, hl⟩ =>
      have hlt := w.isLt
      refine ⟨iff_of_false (by simp) h0.not_gt, iff_of_false (by simp) ?_, fun _ _ => ?_⟩
      · rintro ⟨-, hover⟩
        omega
      · refine ⟨w, b, rfl, hw, hl.trans ⟨fun h => ⟨w.val, by exact_mod_cast h.symm⟩, ?_⟩⟩
        rintro ⟨n, hn⟩
        rw [hn, Int.floor_intCast] at hw
        rw [hn, ← hw, Int.cast_natCast]
  | .error .negativeFixedDecimalConversion, hneg =>
      have hneg' : q < 0 := hneg
      exact ⟨iff_of_true rfl hneg', iff_of_false (by simp) fun h => absurd h.1 hneg'.not_ge,
        fun h0 _ => absurd h0 hneg'.not_ge⟩
  | .error .fixedDecimalOverflow, ⟨h0, hlt⟩ =>
      exact ⟨iff_of_false (by simp) h0.not_gt, iff_of_true rfl ⟨h0, hlt⟩,
        fun _ hle => absurd hlt hle.not_gt⟩

theorem scaled_val (x : Dec) (d : UInt8) :
    (⟨x.c, x.e + d.toNat⟩ : Dec).val = x.val * (10 : ℚ) ^ d.toNat := by
  rw [val, val, ten_zpow_add, zpow_natCast, mul_assoc]

theorem i64Safe_truncated {x : Dec} (h : x.I64Safe) : (truncated x).I64Safe := by
  rcases le_or_gt 0 x.e with he | he
  · rwa [truncated_of_nonneg he]
  · have hd : digits (x.c.tdiv (pow10 (-x.e).toNat)) ≤ digits x.c :=
      digits_le ((natAbs_tdiv_pow10_le _ _).trans_lt (natAbs_lt_pow_digits x.c))
    rw [truncated_of_neg he]
    unfold I64Safe at h ⊢
    dsimp only
    omega

section Specs

variable {T : Panic → Prop}

theorem meets_bigToU256 {z : ℤ} (h : 0 ≤ z ∧ z < 2 ^ 256) :
    Meets T (bigToU256 z) fun v => (v.val : ℤ) = z := by
  unfold bigToU256
  rw [dif_pos h]
  change ((z.toNat : ℕ) : ℤ) = z
  omega

/-- The integer `toFixedDecimalLossy` reads off a truncated nonnegative value. -/
theorem meets_integerOf {s : Dec} (hs : 0 ≤ s.val) (he : s.e ≤ 80) :
    Meets T (integerOf (truncated s)) (· = ⌊s.val⌋) := by
  unfold integerOf
  have hval := truncated_val s
  rw [towardZero_of_nonneg hs] at hval
  split
  · rename_i hpos
    have hle : (truncated s).e ≤ 80 := by
      rcases le_or_gt 0 s.e with h | h
      · rwa [truncated_of_nonneg h]
      · rw [truncated_of_neg h]
        norm_num
    refine (meets_atExponent hpos.le (Or.inr ⟨by omega, by omega⟩)).mono ?_
    rintro _ rfl
    -- Nothing was truncated; the exponent is worked into the coefficient.
    have halign := aligned_mul_zpow (x := truncated s) (e := 0) hpos.le
    rw [hval, zpow_zero, mul_one] at halign
    exact_mod_cast halign
  · rename_i hnot
    have h0 : (truncated s).e = 0 := by
      rcases le_or_gt 0 s.e with h | h
      · rw [truncated_of_nonneg h] at hnot ⊢
        omega
      · rw [truncated_of_neg h]
    rw [Meets.pure_iff]
    rw [val, h0, zpow_zero, mul_one] at hval
    exact_mod_cast hval

/-- Writing a Float with `d` decimals takes the floor of `x × 10^d`. -/
theorem meets_toFixedDecimalLossy {x : Dec} (hx : IsFloat x) (d : UInt8) :
    Meets T (toFixedDecimalLossy x d) (WritesFixed (x.val * (10 : ℚ) ^ d.toNat)) := by
  have hpow : (0 : ℚ) < (10 : ℚ) ^ d.toNat := by positivity
  have hb := hx.isOperand.bounds
  have hd := decimals_le d
  unfold toFixedDecimalLossy
  split
  · rename_i hneg
    exact mul_neg_of_neg_of_pos (val_neg_iff.2 (isNegative_iff.1 hneg)) hpow
  rename_i hneg
  have hc : 0 ≤ x.c := by
    rw [isNegative_iff] at hneg
    omega
  have hq : 0 ≤ x.val * (10 : ℚ) ^ d.toNat := mul_nonneg (val_nonneg_iff.2 hc) hpow.le
  split
  · rename_i hzero
    have h0 := val_eq_zero_iff.2 (isZero_iff.1 hzero)
    exact ⟨hq, by simp [h0], by simp [h0]⟩
  rename_i hzero
  have hpos : 0 < x.c := by
    rw [isZero_iff] at hzero
    omega
  refine (meets_i64 (Or.inr ⟨by omega, by omega⟩)).bind_eq ?_
  rw [← scaled_val] at hq ⊢
  dsimp only
  split
  · -- Too large for any coefficient.
    rename_i he
    refine ⟨hq, Int.lt_floor_iff.2 ?_⟩
    have h1 : (10 : ℚ) ^ (81 : ℤ) ≤ (10 : ℚ) ^ (x.e + (d.toNat : ℤ)) := ten_zpow_le.2 (by omega)
    have h2 : (1 : ℚ) ≤ x.c := by exact_mod_cast hpos
    have h3 : ((2 ^ 256 - 1 : ℤ) : ℚ) + 1 ≤ (10 : ℚ) ^ (81 : ℤ) := by norm_num
    dsimp only [val]
    nlinarith [ten_zpow_pos (81 : ℤ)]
  rename_i he
  refine (meets_trunc (Or.inr ⟨by dsimp only; omega, by dsimp only; omega⟩)).bind_eq ?_
  refine (meets_integerOf hq (not_lt.1 he)).bind_eq ?_
  have hfloor := Int.floor_nonneg.2 hq
  have hmax : u256ToBig U256.max = 2 ^ 256 - 1 := by decide
  rw [hmax]
  split
  · rename_i hlt
    exact ⟨hq, hlt⟩
  rename_i hle
  refine (meets_bigToU256 ⟨hfloor, by omega⟩).bind ?_
  intro v hv
  -- The flag compares the truncated value with the scaled one, not with `int`.
  have hsafe : (⟨x.c, x.e + d.toNat⟩ : Dec).I64Safe := by
    unfold I64Safe
    dsimp only
    omega
  refine (meets_eqValue (Or.inr ⟨i64Safe_truncated hsafe, hsafe⟩)).bind ?_
  intro lossless hl
  rw [truncated_val, towardZero_of_nonneg hq, ← hv] at hl
  exact ⟨hq, hv, by simpa using hl⟩

theorem meets_toFixedDecimalLossless {x : Dec} (hx : IsFloat x) (d : UInt8) :
    Meets T (toFixedDecimalLossless x d) (WritesFixedLossless (x.val * (10 : ℚ) ^ d.toNat)) := by
  refine (meets_toFixedDecimalLossy hx d).bind ?_
  generalize x.val * (10 : ℚ) ^ d.toNat = q
  -- A number of whole units is its own floor, which settles each error.
  have hint : ∀ v : U256, (v.val : ℚ) = q → 0 ≤ q ∧ ⌊q⌋ = (v.val : ℤ) := by
    rintro v rfl
    exact ⟨by positivity, Int.floor_natCast _⟩
  intro r hr
  match r, hr with
  | .ok (v, true), ⟨_, _, hl⟩ => exact hl.1 rfl
  | .ok (v, false), ⟨_, hv, hl⟩ =>
      intro w hw
      have hwv : w = v := by
        have := (hint w hw).2
        exact Fin.ext (by omega)
      exact absurd (hl.2 (hwv ▸ hw)) (by simp)
  | .error .negativeFixedDecimalConversion, hneg =>
      intro w hw
      exact absurd (hint w hw).1 hneg.not_ge
  | .error .fixedDecimalOverflow, ⟨_, hlt⟩ =>
      intro w hw
      have h1 := (hint w hw).2
      have h2 := w.isLt
      omega

end Specs

/-! ## The two directions together -/

/-- From the largest coefficient on, Float values are whole numbers. -/
theorem exists_int_of_int224Max_le {z : ℚ} (hz : z ∈ AnyExponent) (hle : (int224Max : ℚ) ≤ z) :
    ∃ n : ℤ, z = n := by
  rcases hz with ⟨c, f, hc, rfl⟩
  rcases le_or_gt 0 f with hf | hf
  · exact ⟨_, val_eq_intCast (x := ⟨c, f⟩) hf⟩
  · -- A fraction would need a coefficient beyond the largest.
    rw [fitsInt224_iff] at hc
    have h1 : (10 : ℚ) ^ f < 1 := by simpa using ten_zpow_lt.2 hf
    have h2 : (c : ℚ) ≤ int224Max := by exact_mod_cast hc.2
    have h3 : (0 : ℚ) < int224Max := by exact_mod_cast int224Max_pos
    have h4 := ten_zpow_pos f
    nlinarith

theorem mul_pow_mem_anyExponent {z : ℚ} (hz : z ∈ AnyExponent) (k : ℕ) :
    z * (10 : ℚ) ^ k ∈ AnyExponent := by
  rcases hz with ⟨c, f, hc, rfl⟩
  exact ⟨c, f + k, hc, by rw [ten_zpow_add, zpow_natCast, mul_assoc]⟩

/-- A fixed-point value that fits a coefficient is a Float. -/
theorem isFloat_fixedValue {v : U256} (d : UInt8) (hv : (v.val : ℤ) ≤ int224Max) :
    IsFloat (fixedValue v d) := by
  have hd := decimals_le d
  have hmin := int224Min_neg
  refine ⟨?_, ?_, ?_⟩
  · rw [fitsInt224_iff]
    dsimp only [fixedValue, u256ToBig]
    omega
  · dsimp only [fixedValue]
    unfold i32Min
    omega
  · dsimp only [fixedValue]
    unfold i32Max
    omega

/-- Otherwise its truncation has at least the largest coefficient as its number of units. -/
theorem int224Max_le_of_truncated {v : U256} {d : UInt8} {f : ℚ}
    (h : TruncatesTo Representable (fixedValue v d).val f) (hv : int224Max < v.val) :
    (int224Max : ℚ) ≤ f * (10 : ℚ) ^ d.toNat := by
  have hd := decimals_le d
  have hpow : (0 : ℚ) < (10 : ℚ) ^ d.toNat := by positivity
  have hmax : (int224Max : ℚ) < v.val := by exact_mod_cast hv
  have hpos : (0 : ℚ) < int224Max := by exact_mod_cast int224Max_pos
  have hfrac : (int224Max : ℚ) * (10 : ℚ) ^ (-(d.toNat : ℤ)) = int224Max / (10 : ℚ) ^ d.toNat := by
    rw [zpow_neg, zpow_natCast, div_eq_mul_inv]
  -- The largest coefficient is a candidate.
  have hmem : (int224Max : ℚ) / (10 : ℚ) ^ d.toNat ∈ Representable :=
    ⟨int224Max, -d.toNat, by decide, by unfold i32Min; omega, by unfold i32Max; omega, hfrac.symm⟩
  have hle : (int224Max : ℚ) / (10 : ℚ) ^ d.toNat ∈ Set.uIcc 0 (fixedValue v d).val := by
    rw [mem_uIcc_zero_of_nonneg (fixedValue_val_nonneg v d), fixedValue_val]
    exact ⟨by positivity, (div_le_div_iff_of_pos_right hpow).2 hmax.le⟩
  have hcand := h.2.2 _ hmem hle
  rwa [abs_of_nonneg (h.nonneg (fixedValue_val_nonneg v d)), abs_of_pos (by positivity),
    div_le_iff₀ hpow] at hcand

/-- What is left of `v` after truncation to a Float is a whole number of units: either nothing was
dropped, or the Float lies where there are no fractions of a unit any more. -/
theorem exists_int_of_truncated {v : U256} {d : UInt8} {f : ℚ}
    (h : TruncatesTo Representable (fixedValue v d).val f) :
    ∃ n : ℤ, f * (10 : ℚ) ^ d.toNat = n := by
  rcases le_or_gt (v.val : ℤ) int224Max with hv | hv
  · refine ⟨v.val, ?_⟩
    rw [h.eq_of_mem (isFloat_fixedValue d hv).val_mem, fixedValue_val,
      div_mul_cancel₀ _ (by positivity), Int.cast_natCast]
  · exact exists_int_of_int224Max_le (mul_pow_mem_anyExponent (representable_subset h.1) _)
      (int224Max_le_of_truncated h hv)

theorem exists_u256_of_truncated {v : U256} {d : UInt8} {f : ℚ}
    (h : TruncatesTo Representable (fixedValue v d).val f) :
    ∃ w : U256, (w.val : ℚ) = f * (10 : ℚ) ^ d.toNat := by
  have hpow : (0 : ℚ) < (10 : ℚ) ^ d.toNat := by positivity
  have h0 := h.nonneg (fixedValue_val_nonneg v d)
  have hle := h.abs_le
  rw [abs_of_nonneg h0, abs_of_nonneg (fixedValue_val_nonneg v d), fixedValue_val,
    le_div_iff₀ hpow] at hle
  rcases exists_int_of_truncated h with ⟨n, hn⟩
  have hn0 : (0 : ℚ) ≤ n := hn ▸ mul_nonneg h0 hpow.le
  rw [hn] at hle ⊢
  have hn0' : 0 ≤ n := by exact_mod_cast hn0
  have hnv : n ≤ v.val := by exact_mod_cast hle
  have hlt : n.toNat < 2 ^ 256 := by
    have := v.isLt
    omega
  refine ⟨⟨n.toNat, hlt⟩, ?_⟩
  have : ((n.toNat : ℕ) : ℤ) = n := by omega
  exact_mod_cast congrArg (Int.cast : ℤ → ℚ) this

/-- The fixed-decimal conversions are exact and truncating, and lossless ones invert each other. -/
theorem fixed_decimal_exact_truncating_inverse (v : U256) (d : UInt8) (x : Dec) (hx : IsFloat x) :
    (∃ f b, fromFixedDecimalLossy v d = .ok (f, b) ∧ IsFloat f ∧
      0 ≤ f.val * (10 : ℚ) ^ d.toNat ∧ f.val * (10 : ℚ) ^ d.toNat ≤ v.val ∧
      (∀ z ∈ Representable, 0 ≤ z * (10 : ℚ) ^ d.toNat → z * (10 : ℚ) ^ d.toNat ≤ v.val →
        z ≤ f.val) ∧
      (b = true ↔ f.val * (10 : ℚ) ^ d.toNat = v.val) ∧
      ∃ w : U256, (w.val : ℚ) = f.val * (10 : ℚ) ^ d.toNat ∧
        toFixedDecimalLossy f d = .ok (.ok (w, true))) ∧
    (∃ r, toFixedDecimalLossy x d = .ok r ∧
      (r = .error .negativeFixedDecimalConversion ↔ x.val < 0) ∧
      (r = .error .fixedDecimalOverflow ↔
        0 ≤ x.val ∧ 2 ^ 256 - 1 < ⌊x.val * (10 : ℚ) ^ d.toNat⌋) ∧
      (0 ≤ x.val → ⌊x.val * (10 : ℚ) ^ d.toNat⌋ ≤ 2 ^ 256 - 1 →
        ∃ w b, r = .ok (w, b) ∧ (w.val : ℤ) = ⌊x.val * (10 : ℚ) ^ d.toNat⌋ ∧
          (b = true ↔ ∃ n : ℤ, x.val * (10 : ℚ) ^ d.toNat = n))) ∧
    (∀ f, fromFixedDecimalLossless v d = .ok (.ok f) → toFixedDecimalLossless f d = .ok (.ok v)) ∧
    (∀ w, toFixedDecimalLossless x d = .ok (.ok w) →
      ∃ y, fromFixedDecimalLossless w d = .ok (.ok y) ∧ y.val = x.val) := by
  have hpow : (0 : ℚ) < (10 : ℚ) ^ d.toNat := by positivity
  -- Values and units differ by the factor `10^d`.
  have hunits : ∀ (w : U256) (q : ℚ),
      q = (fixedValue w d).val ↔ q * (10 : ℚ) ^ d.toNat = w.val := by
    intro w q
    rw [fixedValue_val, eq_div_iff hpow.ne']
  refine ⟨?_, ?_, ?_, ?_⟩
  · rcases (meets_fromFixedDecimalLossy v d).returns with ⟨⟨f, b⟩, hr, hf, htrunc, hb⟩
    have hv0 := fixedValue_val_nonneg v d
    have hf0 := htrunc.nonneg hv0
    have hunit := exists_u256_of_truncated htrunc
    have hbelow := (mem_uIcc_zero_of_nonneg hv0).1 htrunc.2.1
    rw [fixedValue_val, le_div_iff₀ hpow] at hbelow
    refine ⟨f, b, hr, hf, mul_nonneg hf0 hpow.le, hbelow.2, ?_, hb.trans (hunits v f.val), ?_⟩
    · intro z hz hz0 hzv
      have hz0' : 0 ≤ z := nonneg_of_mul_nonneg_left hz0 hpow
      have hzmem : z ∈ Set.uIcc 0 (fixedValue v d).val := by
        rw [mem_uIcc_zero_of_nonneg hv0, fixedValue_val, le_div_iff₀ hpow]
        exact ⟨hz0', hzv⟩
      have := htrunc.2.2 z hz hzmem
      rwa [abs_of_nonneg hz0', abs_of_nonneg hf0] at this
    · rcases hunit with ⟨w, hw⟩
      rcases (meets_toFixedDecimalLossy hf d).returns with ⟨r, hr', hspec⟩
      rw [← hw] at hspec
      exact ⟨w, hw, by rw [hr', eq_ok_of_writesFixed_natCast hspec]⟩
  · rcases (meets_toFixedDecimalLossy hx d).returns with ⟨r, hr, hspec⟩
    have hsign : x.val < 0 ↔ x.val * (10 : ℚ) ^ d.toNat < 0 := by
      rw [mul_neg_iff]
      simp [hpow, hpow.not_gt]
    have hsign' : 0 ≤ x.val ↔ 0 ≤ x.val * (10 : ℚ) ^ d.toNat := by
      rw [← not_lt, hsign, not_lt]
    rw [hsign, hsign']
    exact ⟨r, hr, writesFixed_iff hspec⟩
  · intro f hf
    have hfrom := (meets_fromFixedDecimalLossless (T := fun _ => False) v d).of_eq_ok hf
    rcases hfrom.1 f rfl with ⟨hfloat, hval⟩
    rcases (meets_toFixedDecimalLossless hfloat d).returns with ⟨r, hr, hspec⟩
    rw [(hunits v f.val).1 hval] at hspec
    match r, hspec with
    | .ok w, hw =>
        have hw' : (w.val : ℚ) = v.val := hw
        have : w = v := Fin.ext (by exact_mod_cast hw')
        rw [hr, this]
    | .error _, hne => exact absurd rfl (hne v)
  · intro w hw
    have hto : (w.val : ℚ) = x.val * (10 : ℚ) ^ d.toNat :=
      (meets_toFixedDecimalLossless (T := fun _ => False) hx d).of_eq_ok hw
    have hval := (hunits w x.val).2 hto.symm
    rcases (meets_fromFixedDecimalLossless w d).returns with ⟨r, hr, hok, hexists⟩
    rcases hexists (hval ▸ hx.val_mem) with ⟨y, rfl⟩
    exact ⟨y, hr, (hok y rfl).2.trans hval.symm⟩

/-- The largest `U256` with eighteen decimals, and a Float of the value one half. -/
theorem fixed_decimal_exact_truncating_inverse_max :
    ∃ f b, fromFixedDecimalLossy U256.max 18 = .ok (f, b) ∧ IsFloat f := by
  have h := fixed_decimal_exact_truncating_inverse U256.max 18 ⟨5, -1⟩
    ⟨by decide, by decide, by decide⟩
  rcases h.1 with ⟨f, b, hr, hf, -⟩
  exact ⟨f, b, hr, hf⟩

end Reference
end RainFloat
