import RainFloat.Reference.Addition

/-!
# Unary — operations on one Float

Rounding a value that is representable already returns it, so each operation is exact once its
value is seen to be representable.  The one exception is the negation of the smallest coefficient,
which rounds to the largest one at the same exponent.
-/

namespace RainFloat
namespace Reference

open Foundation Dec

/-! ## Values that are representable already -/

/-- Within the extreme Floats nothing overflows. -/
theorem Rounds.ok_of_truncatesTo {q u : ℚ} {r : Except RefError Dec} (h : Rounds q r)
    (hu : TruncatesTo AnyExponent q u) (hmem : u ∈ Representable) (h0 : q ≠ 0 → u ≠ 0) :
    ∃ v, r = .ok v ∧ IsFloat v ∧ v.val = u := by
  have hb := mem_representable_bounds hmem
  have htrunc : TruncatesTo Representable q u := hu.restrict representable_subset hmem
  match r, h with
  | .ok v, ⟨_, _, h3, h4⟩ => exact ⟨v, rfl, h3, h4.unique htrunc⟩
  | .error .exponentUnderflow, ⟨_, h2, h3⟩ =>
      exact absurd ((truncatesTo_representable_eq_zero htrunc).2 h3) (h0 h2)
  | .error .exponentOverflow, h1 =>
      rcases (beyondExtremes_iff hu).1 h1 with hlt | hlt
      · exact absurd hb.2 hlt.not_ge
      · exact absurd hb.1 hlt.not_ge

/-- A representable value rounds to itself. -/
theorem Rounds.exact {q : ℚ} {r : Except RefError Dec} (h : Rounds q r) (hq : q ∈ Representable) :
    ∃ v, r = .ok v ∧ IsFloat v ∧ v.val = q :=
  h.ok_of_truncatesTo (TruncatesTo.of_mem (representable_subset hq)) hq id

section Specs

variable {T : Panic → Prop}

theorem meets_arithmetic_exact {x : Dec} (h : T .overflow ∨ PackSafe x)
    (hx : x.val ∈ Representable) :
    Meets T (arithmetic x) fun r => ∃ v, r = .ok v ∧ IsFloat v ∧ v.val = x.val :=
  (meets_arithmetic h).mono fun _ hr => hr.exact hx

end Specs

/-! ## Negating the smallest coefficient -/

/-- One unit below `2^223` is the closest Float value, at any exponent. -/
theorem truncatesTo_neg_int224Min (e : ℤ) :
    TruncatesTo AnyExponent (-(int224Min : ℚ) * (10 : ℚ) ^ e) ((int224Max : ℚ) * (10 : ℚ) ^ e) := by
  have hpos := ten_zpow_pos e
  have hsucc : -(int224Min : ℚ) = int224Max + 1 := by
    norm_num [int224Min, int224Max]
  have hmax : (0 : ℚ) < int224Max := by exact_mod_cast int224Max_pos
  have hq : 0 ≤ -(int224Min : ℚ) * (10 : ℚ) ^ e := by
    rw [hsucc]
    positivity
  refine ⟨⟨int224Max, e, by decide, rfl⟩, ?_, ?_⟩
  · rw [mem_uIcc_zero_of_nonneg hq, hsucc]
    exact ⟨by positivity, by nlinarith⟩
  · rintro z ⟨c, f, hc, rfl⟩ hz
    rw [mem_uIcc_zero_of_nonneg hq] at hz
    rw [abs_of_nonneg hz.1, abs_of_pos (by positivity)]
    rw [fitsInt224_iff] at hc
    have hc' : (c : ℚ) ≤ int224Max := by exact_mod_cast hc.2
    rcases lt_or_ge e f with hlt | hge
    · -- A larger exponent only reaches multiples of ten, and `2^223` is none.
      have hsplit : (c : ℚ) * (10 : ℚ) ^ f = ((c * 10 ^ (f - e).toNat : ℤ) : ℚ) * (10 : ℚ) ^ e := by
        simpa using intCast_mul_zpow_refine (K := ℚ) (b := 10) (by norm_num) c hlt.le
      rw [hsplit] at hz ⊢
      have hle : c * 10 ^ (f - e).toNat ≤ -int224Min := by
        have := le_of_mul_le_mul_right hz.2 hpos
        exact_mod_cast this
      have hdvd : (10 : ℤ) ∣ c * 10 ^ (f - e).toNat :=
        Dvd.dvd.mul_left (dvd_pow_self 10 (by omega)) c
      have hne : c * 10 ^ (f - e).toNat ≠ -int224Min := by
        intro heq
        rw [heq] at hdvd
        exact absurd hdvd (by decide)
      have hle' : c * 10 ^ (f - e).toNat ≤ int224Max := by
        unfold int224Max
        unfold int224Min at hle hne
        omega
      exact mul_le_mul_of_nonneg_right (by exact_mod_cast hle') hpos.le
    · have hpow := ten_zpow_le.2 hge
      have := ten_zpow_pos f
      nlinarith

/-- A Float of the value `(2^223 - 1) × 10^e` has this coefficient and exponent. -/
theorem eq_of_val_eq_int224Max {v : Dec} {e : ℤ} (hv : IsFloat v)
    (h : v.val = (int224Max : ℚ) * (10 : ℚ) ^ e) : v = ⟨int224Max, e⟩ := by
  have hfit := fitsInt224_iff.1 hv.coefficient
  have hpos := ten_zpow_pos e
  have hten : (10 : ℚ) ≠ 0 := by norm_num
  rcases lt_trichotomy v.e e with hlt | heq | hgt
  · -- A smaller exponent would need a coefficient ten times as large.
    have hc : v.c = int224Max * 10 ^ (e - v.e).toNat := by
      have hsplit := intCast_mul_zpow_refine (K := ℚ) (b := 10) (by norm_num) int224Max hlt.le
      push_cast at hsplit
      rw [val, hsplit] at h
      exact_mod_cast mul_right_cancel₀ (ten_zpow_pos v.e).ne' h
    have hge : (10 : ℤ) ^ 1 ≤ 10 ^ (e - v.e).toNat := pow_le_pow_right₀ (by norm_num) (by omega)
    have hmax := int224Max_pos
    nlinarith
  · have hc : v.c = int224Max := by
      rw [val, heq] at h
      exact_mod_cast mul_right_cancel₀ hpos.ne' h
    cases v
    simp_all
  · -- A larger one would make `2^223 - 1` a multiple of ten.
    have hc : v.c * 10 ^ (v.e - e).toNat = int224Max := by
      have hsplit := intCast_mul_zpow_refine (K := ℚ) (b := 10) (by norm_num) v.c hgt.le
      push_cast at hsplit
      rw [val, hsplit] at h
      exact_mod_cast mul_right_cancel₀ hpos.ne' h
    have hdvd : (10 : ℤ) ∣ int224Max :=
      hc ▸ Dvd.dvd.mul_left (dvd_pow_self 10 (by omega)) v.c
    exact absurd hdvd (by decide)

/-! ## The integer part -/

/-- The result of `trunc`. -/
def truncated (x : Dec) : Dec :=
  if 0 ≤ x.e then x else ⟨x.c.tdiv (pow10 (-x.e).toNat), 0⟩

theorem truncated_of_nonneg {x : Dec} (h : 0 ≤ x.e) : truncated x = x :=
  if_pos h

theorem truncated_of_neg {x : Dec} (h : x.e < 0) :
    truncated x = ⟨x.c.tdiv (pow10 (-x.e).toNat), 0⟩ :=
  if_neg (by omega)

/-- A value over a nonnegative exponent is an integer. -/
theorem val_eq_intCast {x : Dec} (h : 0 ≤ x.e) : x.val = ((x.c * pow10 x.e.toNat : ℤ) : ℚ) := by
  have := aligned_mul_zpow (x := x) (e := 0) h
  simpa using this.symm

/-- A value over a negative exponent is a quotient by a power of ten. -/
theorem val_eq_div {x : Dec} (h : x.e < 0) :
    x.val = (x.c : ℚ) / (pow10 (-x.e).toNat : ℤ) := by
  have hk : ((-x.e).toNat : ℤ) = -x.e := by omega
  rw [val, pow10_cast, hk, zpow_neg, div_inv_eq_mul]

theorem truncated_val (x : Dec) : (truncated x).val = (towardZero x.val : ℤ) := by
  rcases le_or_gt 0 x.e with h | h
  · rw [truncated_of_nonneg h, val_eq_intCast h, towardZero_intCast]
  · rw [truncated_of_neg h, val_eq_div h, ← tdiv_eq_towardZero _ (pow10_pos _).ne']
    simp [val]

theorem natAbs_tdiv_pow10_le (c : ℤ) (k : ℕ) : (c.tdiv (pow10 k)).natAbs ≤ c.natAbs := by
  rw [Int.natAbs_tdiv]
  exact Nat.div_le_self _ _

/-- Dividing keeps a coefficient on its side of zero, so it stays an int224. -/
theorem fits_tdiv {c : ℤ} (k : ℕ) (h : fitsInt224 c = true) :
    fitsInt224 (c.tdiv (pow10 k)) = true := by
  rw [fitsInt224_iff] at h ⊢
  have hle := natAbs_tdiv_pow10_le c k
  have hlo := int224Min_neg
  have hhi := int224Max_pos
  rcases le_total 0 c with h0 | h0
  · have := Int.tdiv_nonneg h0 (pow10_pos k).le
    omega
  · have := Int.tdiv_nonneg (neg_nonneg.2 h0) (pow10_pos k).le
    rw [Int.neg_tdiv] at this
    omega

theorem isFloat_intCast {c : ℤ} (h : fitsInt224 c = true) : IsFloat ⟨c, 0⟩ :=
  ⟨h, (by decide : i32Min ≤ 0), (by decide : 0 ≤ i32Max)⟩

theorem IsFloat.truncated {x : Dec} (h : IsFloat x) : IsFloat (truncated x) := by
  rcases le_or_gt 0 x.e with he | he
  · rwa [truncated_of_nonneg he]
  · rw [truncated_of_neg he]
    exact isFloat_intCast (fits_tdiv _ h.coefficient)

/-! ## The fractional part -/

/-- What `trunc` leaves of a decimal over a negative exponent. -/
def fraction (x : Dec) : Dec :=
  ⟨x.c - (truncated x).c * pow10 (-x.e).toNat, x.e⟩

theorem fraction_val {x : Dec} (h : x.e < 0) : (fraction x).val = x.val - (truncated x).val := by
  have he : (truncated x).e = 0 := by rw [truncated_of_neg h]
  have halign := aligned_mul_zpow (x := truncated x) (e := x.e) (by omega)
  rw [he, zero_sub] at halign
  rw [fraction, val, Int.cast_sub, sub_mul, halign]
  rfl

theorem IsFloat.fraction {x : Dec} (h : IsFloat x) (he : x.e < 0) : IsFloat (fraction x) := by
  refine ⟨?_, h.exponent_ge, h.exponent_le⟩
  have hfit := fitsInt224_iff.1 h.coefficient
  have hsplit := Int.tmod_add_mul_tdiv x.c (pow10 (-x.e).toNat)
  -- The coefficient left over is the remainder of the division in `trunc`.
  have hrem : (Reference.fraction x).c = x.c.tmod (pow10 (-x.e).toNat) := by
    dsimp only [Reference.fraction]
    rw [truncated_of_neg he]
    dsimp only
    rw [mul_comm]
    omega
  rw [hrem, fitsInt224_iff]
  have hle : (x.c.tmod (pow10 (-x.e).toNat)).natAbs ≤ x.c.natAbs := by
    rw [Int.natAbs_tmod]
    exact Nat.mod_le _ _
  have hlo := int224Min_neg
  have hhi := int224Max_pos
  rcases le_total 0 x.c with h0 | h0
  · have := Int.tmod_nonneg (pow10 (-x.e).toNat) h0
    omega
  · have : x.c.tmod (pow10 (-x.e).toNat) ≤ 0 := by
      have := Int.tmod_nonneg (pow10 (-x.e).toNat) (neg_nonneg.2 h0)
      rw [Int.neg_tmod] at this
      omega
    omega

/-! ## The specifications -/

section Specs

variable {T : Panic → Prop}

theorem meets_trunc {x : Dec} (h : T .overflow ∨ I64 (-x.e)) :
    Meets T x.trunc (· = truncated x) := by
  unfold trunc
  split
  · rename_i he
    rw [Meets.pure_iff, truncated_of_nonneg he]
  · rename_i he
    refine (meets_i64 h).bind_eq ?_
    rw [Meets.pure_iff, truncated_of_neg (by omega), shed_eq]

/-- Rounding a decimal in the shape of a Float returns its value. -/
theorem meets_arithmetic_float {x : Dec} (h : IsFloat x) :
    Meets T (arithmetic x) fun r => ∃ v, r = .ok v ∧ IsFloat v ∧ v.val = x.val :=
  meets_arithmetic_exact (Or.inr h.isOperand.packSafe) h.val_mem

theorem IsFloat.i64_neg {a : Dec} (h : IsFloat a) : I64 (-a.e) := by
  have := h.isOperand.bounds
  constructor <;> omega

theorem meets_integer {a : Dec} (h : IsFloat a) :
    Meets T (integer a) fun r => ∃ v, r = .ok v ∧ IsFloat v ∧ v.val = (towardZero a.val : ℤ) := by
  refine (meets_trunc (Or.inr h.i64_neg)).bind_eq ?_
  rw [← truncated_val]
  exact meets_arithmetic_float h.truncated

theorem meets_frac {a : Dec} (h : IsFloat a) :
    Meets T (frac a) fun r =>
      ∃ v, r = .ok v ∧ IsFloat v ∧ v.val = a.val - (towardZero a.val : ℤ) := by
  rw [← truncated_val]
  unfold frac
  split
  · rename_i he
    -- There are no digits behind the point.
    refine ⟨zero, rfl, isFloat_zero, ?_⟩
    rw [truncated_of_nonneg he, val_zero, sub_self]
  · rename_i he
    refine (meets_trunc (Or.inr h.i64_neg)).bind_eq ?_
    split
    · -- Nothing before the point: the fraction is `a` itself.
      rename_i hz
      rw [val_eq_zero_iff.2 (isZero_iff.1 hz), sub_zero]
      exact meets_arithmetic_float h
    · have h0 : (truncated a).e = 0 := by rw [truncated_of_neg (by omega)]
      refine (meets_atExponent (by omega) (Or.inr ?_)).bind_eq ?_
      · rw [h0, zero_sub]
        exact h.i64_neg
      · rw [h0, zero_sub, ← fraction_val (by omega)]
        exact meets_arithmetic_float (h.fraction (by omega))

/-- One below the integer part of a negative Float that is no integer. -/
theorem isFloat_pred {a : Dec} (h : IsFloat a) (he : a.e < 0) :
    IsFloat ⟨(truncated a).c - 1, 0⟩ := by
  have hfit := fitsInt224_iff.1 h.coefficient
  refine isFloat_intCast ?_
  rw [truncated_of_neg he, fitsInt224_iff]
  -- At least one digit went, which leaves room below.
  have hle : (a.c.tdiv (pow10 (-a.e).toNat)).natAbs ≤ a.c.natAbs / 10 := by
    rw [Int.natAbs_tdiv]
    refine Nat.div_le_div_left ?_ (by norm_num)
    have h10 : (pow10 (-a.e).toNat).natAbs = 10 ^ (-a.e).toNat := by simp [pow10, Int.natAbs_pow]
    rw [h10]
    exact Nat.le_self_pow (by omega) 10
  unfold int224Min int224Max at hfit ⊢
  dsimp only
  omega

theorem meets_floor {a : Dec} (h : IsFloat a) :
    Meets T (floor a) fun r => ∃ v, r = .ok v ∧ IsFloat v ∧ v.val = ⌊a.val⌋ := by
  refine (meets_trunc (Or.inr h.i64_neg)).bind_eq ?_
  -- Two of the three branches round the integer part.
  have hpart : Meets T (arithmetic (truncated a)) fun r =>
      ∃ v, r = .ok v ∧ IsFloat v ∧ v.val = (towardZero a.val : ℤ) :=
    truncated_val a ▸ meets_arithmetic_float h.truncated
  split
  · rename_i hneg
    have hlt := val_neg_iff.2 (isNegative_iff.1 hneg)
    refine (meets_eqValue (Or.inr ⟨h.truncated.i64Safe, h.i64Safe⟩)).bind ?_
    intro whole hwhole
    rw [truncated_val] at hwhole
    split
    · -- An integer is its own floor.
      rename_i hw
      have hint := hwhole.1 hw
      have hfloor : ⌊a.val⌋ = towardZero a.val := by
        rw [← hint, Int.floor_intCast, towardZero_intCast]
      rwa [hfloor]
    · rename_i hw
      -- Here truncation has moved `a` up, which takes a digit behind the point.
      have hne : ((towardZero a.val : ℤ) : ℚ) ≠ a.val := fun heq => hw (hwhole.2 heq)
      have he : a.e < 0 := by
        by_contra hge
        rw [← truncated_val, truncated_of_nonneg (not_lt.1 hge)] at hne
        exact hne rfl
      have hval : (⟨(truncated a).c - 1, 0⟩ : Dec).val = (⌊a.val⌋ : ℤ) := by
        have hc := truncated_val a
        rw [val, truncated_of_neg he] at hc
        rw [floor_eq_towardZero_sub_one hlt hne, val, truncated_of_neg he]
        push_cast
        rw [← hc]
        simp
      rw [← hval]
      exact meets_arithmetic_float (isFloat_pred h he)
  · rename_i hnonneg
    have hge : 0 ≤ a.val := by
      rw [isNegative_iff, not_lt] at hnonneg
      exact val_nonneg_iff.2 hnonneg
    rwa [← towardZero_of_nonneg hge]

theorem isFloat_int224Max {e : ℤ} (he : i32Min ≤ e ∧ e ≤ i32Max) : IsFloat ⟨int224Max, e⟩ :=
  ⟨(by decide : fitsInt224 int224Max = true), he.1, he.2⟩

/-- Rounding `2^223 × 10^e` takes one unit off and keeps the exponent, without overflowing at the
largest exponent. -/
theorem meets_arithmetic_neg_int224Min {e : ℤ} (he : i32Min ≤ e ∧ e ≤ i32Max) :
    Meets T (arithmetic ⟨-int224Min, e⟩) (· = .ok ⟨int224Max, e⟩) := by
  have hdigits : digits (-int224Min) ≤ 68 := by decide
  have hop : IsOperand ⟨-int224Min, e⟩ := ⟨hdigits, he.1, he.2⟩
  have hfloat := isFloat_int224Max he
  have hval : (⟨-int224Min, e⟩ : Dec).val = -(int224Min : ℚ) * (10 : ℚ) ^ e := by
    rw [val, Int.cast_neg]
  refine (meets_arithmetic (Or.inr hop.packSafe)).mono fun r hr => ?_
  rw [hval] at hr
  have hne : (⟨int224Max, e⟩ : Dec).val ≠ 0 :=
    mt val_eq_zero_iff.1 int224Max_pos.ne'
  rcases hr.ok_of_truncatesTo (truncatesTo_neg_int224Min e) hfloat.val_mem fun _ => hne
    with ⟨v, rfl, hv, hveq⟩
  rw [eq_of_val_eq_int224Max hv hveq]

/-- Rounding a coefficient that is at most one past the largest int224. -/
theorem meets_arithmetic_magnitude {x : Dec} (hc : int224Min ≤ x.c ∧ x.c ≤ -int224Min)
    (he : i32Min ≤ x.e ∧ x.e ≤ i32Max) :
    Meets T (arithmetic x) fun r => ∃ v, r = .ok v ∧ IsFloat v ∧
      (x.c ≠ -int224Min → v.val = x.val) ∧ (x.c = -int224Min → v = ⟨int224Max, x.e⟩) := by
  by_cases hmin : x.c = -int224Min
  · have hx : x = ⟨-int224Min, x.e⟩ := by rw [← hmin]
    have hround := meets_arithmetic_neg_int224Min (T := T) he
    rw [← hx] at hround
    refine hround.mono ?_
    rintro _ rfl
    exact ⟨_, rfl, isFloat_int224Max he, fun hne => absurd hmin hne, fun _ => rfl⟩
  · have hfit : fitsInt224 x.c = true := by
      rw [fitsInt224_iff]
      unfold int224Min at hc hmin ⊢
      unfold int224Max
      omega
    refine (meets_arithmetic_float ⟨hfit, he.1, he.2⟩).mono ?_
    rintro _ ⟨v, rfl, hv, hval⟩
    exact ⟨v, rfl, hv, fun _ => hval, fun heq => absurd heq hmin⟩

theorem meets_minus {a : Dec} (h : IsFloat a) :
    Meets T (minus a) fun r => ∃ v, r = .ok v ∧ IsFloat v ∧
      (a.c ≠ int224Min → v.val = -a.val) ∧ (a.c = int224Min → v = ⟨int224Max, a.e⟩) := by
  have hfit := fitsInt224_iff.1 h.coefficient
  have hc : int224Min ≤ a.neg.c ∧ a.neg.c ≤ -int224Min := by
    unfold int224Min int224Max at hfit
    unfold int224Min
    dsimp only [Dec.neg]
    omega
  refine (meets_arithmetic_magnitude hc ⟨h.exponent_ge, h.exponent_le⟩).mono ?_
  rintro _ ⟨v, rfl, hv, hval, hmin⟩
  refine ⟨v, rfl, hv, fun hne => ?_, fun heq => hmin (by rw [Dec.neg, heq])⟩
  rw [hval fun heq => hne (neg_injective heq), val_neg]

theorem meets_abs {a : Dec} (h : IsFloat a) :
    Meets T (abs a) fun r => ∃ v, r = .ok v ∧ IsFloat v ∧
      (a.c ≠ int224Min → v.val = |a.val|) ∧ (a.c = int224Min → v = ⟨int224Max, a.e⟩) := by
  have hfit := fitsInt224_iff.1 h.coefficient
  have hc : int224Min ≤ a.abs.c ∧ a.abs.c ≤ -int224Min := by
    unfold int224Min int224Max at hfit
    unfold int224Min
    dsimp only [Dec.abs]
    rcases abs_cases a.c with hcase | hcase <;> omega
  -- No int224 is as large as `2^223`, so only the smallest one has this magnitude.
  have hiff : a.abs.c = -int224Min ↔ a.c = int224Min := by
    unfold int224Min int224Max at hfit
    unfold int224Min
    dsimp only [Dec.abs]
    rcases abs_cases a.c with hcase | hcase <;> omega
  refine (meets_arithmetic_magnitude hc ⟨h.exponent_ge, h.exponent_le⟩).mono ?_
  rintro _ ⟨v, rfl, hv, hval, hmin⟩
  refine ⟨v, rfl, hv, fun hne => ?_, fun heq => hmin (hiff.2 heq)⟩
  rw [hval fun heq => hne (hiff.1 heq), val_abs]

end Specs

/-! ## The unary operations, read back -/

/-- Every unary operation returns on every Float.  `integer` drops the fraction, `frac` keeps it
with its sign, `floor` is the integer below; `minus` and `abs` are exact but for the smallest
coefficient, whose negation is rounded to the largest at the same exponent. -/
theorem unary_total_and_exact (a : Dec) (ha : IsFloat a) :
    ∃ m p i f l : Dec,
      minus a = .ok (.ok m) ∧ abs a = .ok (.ok p) ∧ integer a = .ok (.ok i) ∧
      frac a = .ok (.ok f) ∧ floor a = .ok (.ok l) ∧
      i.val = (if 0 ≤ a.val then ⌊a.val⌋ else ⌈a.val⌉ : ℤ) ∧
      i.val + f.val = a.val ∧
      (f.val = 0 ∨ SignType.sign f.val = SignType.sign a.val) ∧ |f.val| < 1 ∧
      (∃ n : ℤ, l.val = n) ∧ l.val ≤ a.val ∧ a.val < l.val + 1 ∧
      (a.c ≠ int224Min → m.val = -a.val ∧ p.val = |a.val|) ∧
      (a.c = int224Min → m = ⟨2 ^ 223 - 1, a.e⟩ ∧ p = ⟨2 ^ 223 - 1, a.e⟩) := by
  rcases (meets_minus ha).returns with ⟨_, hm, m, rfl, -, hm1, hm2⟩
  rcases (meets_abs ha).returns with ⟨_, hp, p, rfl, -, hp1, hp2⟩
  rcases (meets_integer ha).returns with ⟨_, hi, i, rfl, -, hival⟩
  rcases (meets_frac ha).returns with ⟨_, hf, f, rfl, -, hfval⟩
  rcases (meets_floor ha).returns with ⟨_, hl, l, rfl, -, hlval⟩
  have hfrac := sub_towardZero_bounds a.val
  rw [← hfval] at hfrac
  refine ⟨m, p, i, f, l, hm, hp, hi, hf, hl, hival, ?_, hfrac.2, hfrac.1, ⟨_, hlval⟩, ?_, ?_, ?_,
    ?_⟩
  · rw [hival, hfval]
    ring
  · rw [hlval]
    exact Int.floor_le _
  · rw [hlval]
    exact Int.lt_floor_add_one _
  · exact fun hne => ⟨hm1 hne, hp1 hne⟩
  · exact fun heq => ⟨hm2 heq, hp2 heq⟩

/-- The smallest coefficient at the largest exponent. -/
theorem unary_total_and_exact_min : minus minNegative = .ok (.ok ⟨2 ^ 223 - 1, i32Max⟩) := by
  have h := unary_total_and_exact minNegative ⟨by decide, by decide, by decide⟩
  rcases h with ⟨m, p, i, f, l, hm, -, -, -, -, -, -, -, -, -, -, -, -, hmin⟩
  rw [hm, (hmin rfl).1]
  rfl

-- The floor of minus one half.
example : floor ⟨-5, -1⟩ = .ok (.ok ⟨-1 * 10 ^ 67, -67⟩) := by
  decide +kernel

end Reference
end RainFloat
