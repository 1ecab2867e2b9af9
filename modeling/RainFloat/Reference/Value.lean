import Mathlib.Data.Rat.Defs
import Mathlib.Algebra.Order.Ring.Rat
import RainFloat.Foundation.RadixDigits
import RainFloat.Reference.Dec

/-!
# Value — the rational number a decimal denotes

`Dec.val x` is `c × 10^e` as a rational.  The operations of `Dec` are specified through it:

* `val_abs_bounds`: the digit count places the magnitude between two powers of ten;
* `meets_cmpValue`: comparison is the order of the values;
* `meets_normalized`: zero stripping keeps the value and ends in the normal form.

Each specification is stated for an arbitrary tolerance.  The side condition `T .overflow ∨ _`
reads: either an overflowing `i64` operation is tolerated, or the exponents stay clear of the
limits.
-/

namespace RainFloat
namespace Reference

open Foundation

namespace Dec

/-- The rational number `c × 10^e`. -/
def val (x : Dec) : ℚ :=
  (x.c : ℚ) * (10 : ℚ) ^ x.e

/-- Exponent and digit count, within `2^61`, leave room for the `i64` arithmetic of comparisons. -/
def I64Safe (x : Dec) : Prop :=
  -2305843009213693952 ≤ x.e ∧ x.e ≤ 2305843009213693952 ∧ digits x.c ≤ 2305843009213693952

end Dec

open Dec

/-! ## Powers of ten -/

theorem ten_zpow_pos (e : ℤ) : (0 : ℚ) < (10 : ℚ) ^ e := by
  positivity

theorem ten_zpow_add (e f : ℤ) : (10 : ℚ) ^ (e + f) = (10 : ℚ) ^ e * (10 : ℚ) ^ f :=
  zpow_add₀ (by norm_num) e f

theorem ten_zpow_le {e f : ℤ} : (10 : ℚ) ^ e ≤ (10 : ℚ) ^ f ↔ e ≤ f :=
  zpow_le_zpow_iff_right₀ (by norm_num)

theorem ten_zpow_lt {e f : ℤ} : (10 : ℚ) ^ e < (10 : ℚ) ^ f ↔ e < f :=
  zpow_lt_zpow_iff_right₀ (by norm_num)

theorem pow10_cast (k : ℕ) : ((pow10 k : ℤ) : ℚ) = (10 : ℚ) ^ (k : ℤ) := by
  simp [pow10]

theorem pow10_pos (k : ℕ) : 0 < pow10 k := by
  unfold pow10
  positivity

/-! ## Values -/

@[simp] theorem val_zero : zero.val = 0 := by
  simp [val, zero]

theorem val_eq_zero_iff {x : Dec} : x.val = 0 ↔ x.c = 0 := by
  simp [val, (ten_zpow_pos x.e).ne']

@[simp] theorem isZero_iff {x : Dec} : x.isZero = true ↔ x.c = 0 := by
  simp [isZero]

@[simp] theorem isNegative_iff {x : Dec} : x.isNegative = true ↔ x.c < 0 := by
  simp [isNegative]

theorem val_pos_iff {x : Dec} : 0 < x.val ↔ 0 < x.c := by
  rw [val, mul_pos_iff_of_pos_right (ten_zpow_pos x.e), Int.cast_pos]

theorem val_neg_iff {x : Dec} : x.val < 0 ↔ x.c < 0 := by
  rw [val, mul_neg_iff]
  simp [ten_zpow_pos x.e, (ten_zpow_pos x.e).not_gt]

theorem val_nonneg_iff {x : Dec} : 0 ≤ x.val ↔ 0 ≤ x.c := by
  rw [← not_lt, val_neg_iff, not_lt]

@[simp] theorem val_neg (x : Dec) : x.neg.val = -x.val := by
  simp [val, Dec.neg]

@[simp] theorem val_abs (x : Dec) : x.abs.val = |x.val| := by
  simp [val, Dec.abs, abs_mul, abs_of_pos (ten_zpow_pos x.e)]

/-! ## Digit counts -/

@[simp] theorem digits_zero : digits 0 = 0 :=
  rfl

theorem digits_pos {c : ℤ} (hc : c ≠ 0) : 0 < digits c := by
  simp [digits, hc, Nat.length_toDigits_pos]

theorem digits_natAbs_bounds {c : ℤ} (hc : c ≠ 0) :
    10 ^ (digits c - 1) ≤ c.natAbs ∧ c.natAbs < 10 ^ digits c := by
  have := length_toDigits_bounds (b := 10) (n := c.natAbs) (by norm_num) (Int.natAbs_pos.2 hc)
  simpa [digits, hc] using this

theorem digits_congr {c c' : ℤ} (h : c.natAbs = c'.natAbs) : digits c = digits c' := by
  have hz : c = 0 ↔ c' = 0 := by
    rw [← Int.natAbs_eq_zero, h, Int.natAbs_eq_zero]
  unfold digits
  rw [h]
  simp [hz]

@[simp] theorem digits_neg (c : ℤ) : digits (-c) = digits c :=
  digits_congr (Int.natAbs_neg c)

@[simp] theorem digits_abs (c : ℤ) : digits |c| = digits c :=
  digits_congr (Int.natAbs_abs c)

@[simp] theorem i64Safe_abs {x : Dec} : x.abs.I64Safe ↔ x.I64Safe := by
  simp [I64Safe, Dec.abs]

/-- A number below `10^k` has at most `k` digits. -/
theorem digits_le {c : ℤ} {k : ℕ} (h : c.natAbs < 10 ^ k) : digits c ≤ k := by
  by_cases hc : c = 0
  · simp [hc]
  · by_contra hlt
    have hle : 10 ^ k ≤ 10 ^ (digits c - 1) := Nat.pow_le_pow_right (by norm_num) (by omega)
    have := (digits_natAbs_bounds hc).1
    omega

/-- A number from `10^k` on has more than `k` digits. -/
theorem lt_digits {c : ℤ} {k : ℕ} (h : 10 ^ k ≤ c.natAbs) : k < digits c := by
  have hc : c ≠ 0 := by
    rintro rfl
    simp at h
  by_contra hlt
  have hle : 10 ^ digits c ≤ 10 ^ k := Nat.pow_le_pow_right (by norm_num) (by omega)
  have := (digits_natAbs_bounds hc).2
  omega

theorem natAbs_lt_pow_digits (c : ℤ) : c.natAbs < 10 ^ digits c := by
  by_cases hc : c = 0
  · simp [hc]
  · exact (digits_natAbs_bounds hc).2

/-- Scaling by a power of ten adds no more digits than its exponent. -/
theorem natAbs_mul_pow10_lt {c : ℤ} {k n : ℕ} (h : digits c + k ≤ n) :
    (c * pow10 k).natAbs < 10 ^ n := by
  calc
    (c * pow10 k).natAbs = c.natAbs * 10 ^ k := by simp [pow10, Int.natAbs_mul, Int.natAbs_pow]
    _ < 10 ^ digits c * 10 ^ k :=
        Nat.mul_lt_mul_of_pos_right (natAbs_lt_pow_digits c) (by positivity)
    _ = 10 ^ (digits c + k) := (pow_add _ _ _).symm
    _ ≤ 10 ^ n := Nat.pow_le_pow_right (by norm_num) h

theorem digits_add_le {c d : ℤ} {n : ℕ} (hc : c.natAbs < 10 ^ n) (hd : d.natAbs < 10 ^ n) :
    digits (c + d) ≤ n + 1 := by
  apply digits_le
  have := Int.natAbs_add_le c d
  have hpow : (10 : ℕ) ^ (n + 1) = 10 * 10 ^ n := by rw [pow_succ, mul_comm]
  omega

theorem natAbs_cast (c : ℤ) : ((c.natAbs : ℕ) : ℚ) = |(c : ℚ)| := by
  rw [Nat.cast_natAbs, Int.cast_abs]

/-- The magnitude of a nonzero value lies in the decade of its top digit. -/
theorem val_abs_bounds {x : Dec} (hx : x.c ≠ 0) :
    (10 : ℚ) ^ (x.e + digits x.c - 1) ≤ |x.val| ∧ |x.val| < (10 : ℚ) ^ (x.e + digits x.c) := by
  have hb := digits_natAbs_bounds hx
  have hpos := digits_pos hx
  have hlow : (10 : ℚ) ^ ((digits x.c - 1 : ℕ) : ℤ) ≤ |(x.c : ℚ)| := by
    rw [← natAbs_cast, zpow_natCast]
    exact_mod_cast hb.1
  have hupp : |(x.c : ℚ)| < (10 : ℚ) ^ ((digits x.c : ℕ) : ℤ) := by
    rw [← natAbs_cast, zpow_natCast]
    exact_mod_cast hb.2
  have he := ten_zpow_pos x.e
  have habs : |x.val| = |(x.c : ℚ)| * (10 : ℚ) ^ x.e := by
    rw [val, abs_mul, abs_of_pos he]
  constructor
  · calc
      (10 : ℚ) ^ (x.e + digits x.c - 1)
          = (10 : ℚ) ^ ((digits x.c - 1 : ℕ) : ℤ) * (10 : ℚ) ^ x.e := by
            rw [← ten_zpow_add]
            congr 1
            omega
      _ ≤ |(x.c : ℚ)| * (10 : ℚ) ^ x.e := by nlinarith
      _ = |x.val| := habs.symm
  · calc
      |x.val| = |(x.c : ℚ)| * (10 : ℚ) ^ x.e := habs
      _ < (10 : ℚ) ^ ((digits x.c : ℕ) : ℤ) * (10 : ℚ) ^ x.e := by nlinarith
      _ = (10 : ℚ) ^ (x.e + digits x.c) := by rw [← ten_zpow_add, add_comm]

/-- The digit cut-off of `shed` changes nothing: it is a truncating division throughout. -/
theorem shed_eq (c : ℤ) (k : ℕ) : shed c k = c.tdiv (pow10 k) := by
  unfold shed
  split
  · -- All digits are shed, and the quotient is zero as well.
    rename_i hk
    by_cases hc : c = 0
    · simp [hc]
    · symm
      rw [← Int.natAbs_eq_zero, Int.natAbs_tdiv]
      apply Nat.div_eq_of_lt
      calc
        c.natAbs < 10 ^ digits c := (digits_natAbs_bounds hc).2
        _ ≤ 10 ^ k := Nat.pow_le_pow_right (by norm_num) hk.le
        _ = (pow10 k).natAbs := by simp [pow10, Int.natAbs_pow]
  · rfl

/-! ## Alignment -/

section Specs

variable {T : Panic → Prop}

theorem meets_atExponent {x : Dec} {e : ℤ} (he : e ≤ x.e) (h : T .overflow ∨ I64 (x.e - e)) :
    Meets T (x.atExponent e) (· = x.c * pow10 (x.e - e).toNat) := by
  refine (meets_assert he).bind fun _ _ => ?_
  exact (meets_i64 h).bind_eq rfl

/-- Aligning the coefficient does not change the value. -/
theorem aligned_mul_zpow {x : Dec} {e : ℤ} (he : e ≤ x.e) :
    ((x.c * pow10 (x.e - e).toNat : ℤ) : ℚ) * (10 : ℚ) ^ e = x.val := by
  have hsplit : (x.e - e).toNat + e = x.e := by omega
  rw [Int.cast_mul, pow10_cast, mul_assoc, ← ten_zpow_add, hsplit, val]

/-! ## Comparison -/

/-- Magnitudes compare as their decades do when these differ. -/
theorem compare_decades {a b : Dec} (ha : a.c ≠ 0) (hb : b.c ≠ 0)
    (h : a.e + digits a.c ≠ b.e + digits b.c) :
    compare (a.e + (digits a.c : ℤ)) (b.e + digits b.c) = compare |a.val| |b.val| := by
  have hba := val_abs_bounds ha
  have hbb := val_abs_bounds hb
  -- The lower decade ends where the higher one starts.
  rcases lt_or_gt_of_ne h with hlt | hgt
  · have hle : (10 : ℚ) ^ (a.e + digits a.c) ≤ (10 : ℚ) ^ (b.e + digits b.c - 1) :=
      ten_zpow_le.2 (by omega)
    rw [compare_lt_iff_lt.2 hlt, eq_comm, compare_lt_iff_lt]
    linarith [hba.2, hbb.1]
  · have hle : (10 : ℚ) ^ (b.e + digits b.c) ≤ (10 : ℚ) ^ (a.e + digits a.c - 1) :=
      ten_zpow_le.2 (by omega)
    rw [compare_gt_iff_gt.2 hgt, eq_comm, compare_gt_iff_gt]
    linarith [hbb.2, hba.1]

theorem abs_cast_mul_zpow (c e : ℤ) : ((|c| : ℤ) : ℚ) * (10 : ℚ) ^ e = |(c : ℚ) * 10 ^ e| := by
  rw [Int.cast_abs, abs_mul, abs_of_pos (ten_zpow_pos e)]

/-- Scaling by a positive factor does not change an order. -/
theorem compare_mul_right {p q s : ℚ} (hs : 0 < s) : compare (p * s) (q * s) = compare p q := by
  rcases lt_trichotomy p q with h | h | h
  · rw [compare_lt_iff_lt.2 h, compare_lt_iff_lt]
    nlinarith
  · simp [h]
  · rw [compare_gt_iff_gt.2 h, compare_gt_iff_gt]
    nlinarith

/-- Negation reverses an order. -/
theorem compare_neg_swap (p q : ℚ) : (compare (-p) (-q)).swap = compare p q := by
  rcases lt_trichotomy p q with h | h | h
  · rw [compare_lt_iff_lt.2 h, compare_gt_iff_gt.2 (neg_lt_neg h)]
    rfl
  · simp [h]
  · rw [compare_gt_iff_gt.2 h, compare_lt_iff_lt.2 (neg_lt_neg h)]
    rfl

theorem compare_intCast (p q : ℤ) : compare (p : ℚ) (q : ℚ) = compare p q := by
  rcases lt_trichotomy p q with h | h | h
  · rw [compare_lt_iff_lt.2 h, compare_lt_iff_lt]
    exact_mod_cast h
  · simp [h]
  · rw [compare_gt_iff_gt.2 h, compare_gt_iff_gt]
    exact_mod_cast h

theorem meets_cmpMagnitude {a b : Dec} (ha : a.c ≠ 0) (hb : b.c ≠ 0)
    (h : T .overflow ∨ a.I64Safe ∧ b.I64Safe) :
    Meets T (cmpMagnitude a b) (· = compare |a.val| |b.val|) := by
  refine (meets_i64 (h.imp_right fun hs => ?_)).bind_eq ?_
  · have := hs.1
    unfold I64Safe at this
    omega
  refine (meets_i64 (h.imp_right fun hs => ?_)).bind_eq ?_
  · have := hs.2
    unfold I64Safe at this
    omega
  by_cases htop : a.e + digits a.c = b.e + digits b.c
  · -- Same decade: the exponents differ by no more than the digit counts, so alignment is safe.
    rw [if_neg (by simpa using htop)]
    have hgap : ∀ x : Dec, x = a ∨ x = b → T .overflow ∨ I64 (x.e - min a.e b.e) := by
      intro x hx
      refine h.imp_right fun hs => ?_
      have h1 := hs.1
      have h2 := hs.2
      unfold I64Safe at h1 h2
      rcases hx with rfl | rfl <;> omega
    refine (meets_atExponent (min_le_left _ _) (hgap a (Or.inl rfl))).bind_eq ?_
    refine (meets_atExponent (min_le_right _ _) (hgap b (Or.inr rfl))).bind_eq ?_
    rw [Meets.pure_iff]
    calc
      compare |a.c * pow10 (a.e - min a.e b.e).toNat| |b.c * pow10 (b.e - min a.e b.e).toNat|
          = compare (((|a.c * pow10 (a.e - min a.e b.e).toNat| : ℤ) : ℚ) * 10 ^ min a.e b.e)
              (((|b.c * pow10 (b.e - min a.e b.e).toNat| : ℤ) : ℚ) * 10 ^ min a.e b.e) := by
            rw [compare_mul_right (ten_zpow_pos _), compare_intCast]
      _ = compare |a.val| |b.val| := by
            rw [abs_cast_mul_zpow, abs_cast_mul_zpow, aligned_mul_zpow (min_le_left _ _),
              aligned_mul_zpow (min_le_right _ _)]
  · rw [if_pos (by simpa using htop), Meets.pure_iff]
    exact compare_decades ha hb htop

theorem sign_of_neg {c : ℤ} (h : c < 0) : sign c = .minus := by
  simp [sign, h]

theorem sign_of_pos {c : ℤ} (h : 0 < c) : sign c = .plus := by
  simp [sign, h.not_gt, h.ne']

@[simp] theorem sign_of_zero : sign 0 = .noSign :=
  rfl

/-- Values of different signs compare as the ranks of their signs. -/
theorem compare_rank {a b : Dec} (h : sign a.c ≠ sign b.c) :
    compare (rank (sign a.c)) (rank (sign b.c)) = compare a.val b.val := by
  rcases lt_trichotomy a.c 0 with ha | ha | ha <;> rcases lt_trichotomy b.c 0 with hb | hb | hb
  · simp [sign_of_neg ha, sign_of_neg hb] at h
  · have := val_neg_iff.2 ha
    rw [sign_of_neg ha, hb, sign_of_zero, val_eq_zero_iff.2 hb, compare_lt_iff_lt.2 this]
    rfl
  · have := (val_neg_iff.2 ha).trans (val_pos_iff.2 hb)
    rw [sign_of_neg ha, sign_of_pos hb, compare_lt_iff_lt.2 this]
    rfl
  · have := val_neg_iff.2 hb
    rw [sign_of_neg hb, ha, sign_of_zero, val_eq_zero_iff.2 ha, compare_gt_iff_gt.2 this]
    rfl
  · simp [ha, hb] at h
  · have := val_pos_iff.2 hb
    rw [sign_of_pos hb, ha, sign_of_zero, val_eq_zero_iff.2 ha, compare_lt_iff_lt.2 this]
    rfl
  · have := (val_neg_iff.2 hb).trans (val_pos_iff.2 ha)
    rw [sign_of_pos ha, sign_of_neg hb, compare_gt_iff_gt.2 this]
    rfl
  · have := val_pos_iff.2 ha
    rw [sign_of_pos ha, hb, sign_of_zero, val_eq_zero_iff.2 hb, compare_gt_iff_gt.2 this]
    rfl
  · simp [sign_of_pos ha, sign_of_pos hb] at h

/-- Comparison is the order of the values. -/
theorem meets_cmpValue {a b : Dec} (h : T .overflow ∨ a.I64Safe ∧ b.I64Safe) :
    Meets T (a.cmpValue b) (· = compare a.val b.val) := by
  unfold cmpValue
  split
  · -- Different signs decide by themselves.
    rename_i hs
    exact compare_rank hs
  rename_i hs
  rw [not_not] at hs
  -- The signs agree from here on, so that of `a` picks the branch.
  rcases lt_trichotomy a.c 0 with ha | ha | ha
  · -- Both negative: the order of the magnitudes, reversed.
    have hb : b.c < 0 := by
      by_contra hb
      rcases (not_lt.1 hb).eq_or_lt with hb | hb
      · simp [← hb, sign_of_neg ha] at hs
      · simp [sign_of_neg ha, sign_of_pos hb] at hs
    rw [if_neg (by simp [sign_of_neg ha])]
    refine (meets_cmpMagnitude ha.ne hb.ne h).bind_eq ?_
    rw [if_pos (sign_of_neg ha), Meets.pure_iff, abs_of_neg (val_neg_iff.2 ha),
      abs_of_neg (val_neg_iff.2 hb), compare_neg_swap]
  · have hb : b.c = 0 := by
      by_contra hb
      rcases lt_or_gt_of_ne hb with hb | hb
      · simp [ha, sign_of_neg hb] at hs
      · simp [ha, sign_of_pos hb] at hs
    simp [ha, val_eq_zero_iff.2 ha, val_eq_zero_iff.2 hb]
  · have hb : 0 < b.c := by
      by_contra hb
      rcases (not_lt.1 hb).eq_or_lt with hb | hb
      · simp [hb, sign_of_pos ha] at hs
      · simp [sign_of_neg hb, sign_of_pos ha] at hs
    rw [if_neg (by simp [sign_of_pos ha])]
    refine (meets_cmpMagnitude ha.ne' hb.ne' h).bind_eq ?_
    rw [if_neg (by simp [sign_of_pos ha]), Meets.pure_iff, abs_of_pos (val_pos_iff.2 ha),
      abs_of_pos (val_pos_iff.2 hb)]

theorem meets_eqValue {a b : Dec} (h : T .overflow ∨ a.I64Safe ∧ b.I64Safe) :
    Meets T (a.eqValue b) (fun r => r = true ↔ a.val = b.val) := by
  refine (meets_cmpValue h).bind_eq ?_
  simp

/-! ## Zero stripping -/

/-- Dropping the last digit shortens a number by a digit. -/
theorem digits_tdiv_ten {c : ℤ} (hc : c ≠ 0) : digits (c.tdiv 10) + 1 ≤ digits c := by
  have hpos := digits_pos hc
  have hlt : (c.tdiv 10).natAbs < 10 ^ (digits c - 1) := by
    rw [Int.natAbs_tdiv]
    apply Nat.div_lt_of_lt_mul
    calc
      c.natAbs < 10 ^ digits c := (digits_natAbs_bounds hc).2
      _ = 10 * 10 ^ (digits c - 1) := by
            rw [← Nat.pow_succ']
            congr 1
            omega
  have := digits_le hlt
  omega

/-- The loop of `normalized` stops, having moved zeros from the coefficient to the exponent until
ten no longer divides the coefficient.  Each turn takes a digit and adds one to the exponent, so
the exponent never passes `e + digits c`. -/
theorem meets_stripZeros (c : ℤ) (hc : c ≠ 0) (e : ℤ)
    (h : T .overflow ∨ -9223372036854775808 ≤ e ∧ e + digits c ≤ 9223372036854775807) :
    Meets T (stripZeros c hc e) fun n =>
      ¬ (10 : ℤ) ∣ n.c ∧ ∃ k : ℕ, c = n.c * pow10 k ∧ n.e = e + k := by
  induction c, hc, e using stripZeros.induct with
  | case1 c hc e hmod ih =>
      rw [stripZeros, dif_pos hmod]
      have hdigits := digits_tdiv_ten hc
      -- The digit that goes makes room for the exponent that grows.
      refine (meets_i64 (h.imp_right fun hs => ?_)).bind_eq ?_
      · omega
      · refine (ih (e + 1) (h.imp_right fun hs => ?_)).mono ?_
        · omega
        · rintro n ⟨hn, k, hk, he⟩
          refine ⟨hn, k + 1, ?_, by push_cast; omega⟩
          have hsplit := Int.tmod_add_mul_tdiv c 10
          rw [hmod, zero_add, hk] at hsplit
          rw [← hsplit, pow10, pow10, pow_succ]
          ring
  | case2 c hc e hmod =>
      rw [stripZeros, dif_neg hmod]
      refine ⟨?_, 0, by simp [pow10], by simp⟩
      rwa [← Int.dvd_iff_tmod_eq_zero] at hmod

/-- `n` is the normal form of a value: zero over the exponent zero, or a coefficient that ten does
not divide. -/
def IsNormal (n : Dec) : Prop :=
  n = zero ∨ ¬ (10 : ℤ) ∣ n.c

theorem meets_normalized {x : Dec} (h : T .overflow ∨ x.I64Safe) :
    Meets T x.normalized fun n =>
      IsNormal n ∧ n.val = x.val ∧ ∃ k : ℕ, x.c = n.c * pow10 k ∧ (x.c ≠ 0 → n.e = x.e + k) := by
  unfold normalized
  split
  · rename_i hc
    exact ⟨Or.inl rfl, by rw [val_zero, val_eq_zero_iff.2 hc], 0, by simp [hc, zero],
      fun hne => absurd hc hne⟩
  · rename_i hc
    refine (meets_stripZeros x.c hc x.e (h.imp_right fun hs => ?_)).mono ?_
    · unfold I64Safe at hs
      omega
    · rintro n ⟨hn, k, hk, he⟩
      refine ⟨Or.inr hn, ?_, k, hk, fun _ => he⟩
      rw [val, val, hk, he, ten_zpow_add, Int.cast_mul, pow10_cast]
      ring

/-- A value has one normal form. -/
theorem IsNormal.unique {n n' : Dec} (h : IsNormal n) (h' : IsNormal n') (hv : n.val = n'.val) :
    n = n' := by
  -- Ten divides a zero coefficient, so only the zero normal form has the value zero.
  have hne : ∀ {m : Dec}, ¬ (10 : ℤ) ∣ m.c → m.val ≠ 0 := by
    intro m hm h0
    rw [val_eq_zero_iff] at h0
    exact hm (h0 ▸ dvd_zero _)
  rcases h with rfl | h <;> rcases h' with rfl | h'
  · rfl
  · exact absurd (by simpa using hv.symm) (hne h')
  · exact absurd (by simpa using hv) (hne h)
  · have := normalForm_unique (K := ℚ) (b := 10) (by norm_num) h h' (by simpa [val] using hv)
    cases n
    cases n'
    simpa using this

end Specs

/-! ## Comparison and normal forms, read back -/

/-- `cmpValue` is the order of the denoted rationals, `normalized` stops in a normal form of the
same value, and `eqValue` is equality of the normal forms.  An overflowing `i64` exponent is the
only way for any of them not to return, and within `I64Safe` there is none. -/
theorem cmpValue_is_value_order (a b : Dec) :
    (a.cmpValue b = .error .overflow ∨ a.cmpValue b = .ok (compare a.val b.val)) ∧
    (a.normalized = .error .overflow ∨
      ∃ n, a.normalized = .ok n ∧ n.val = a.val ∧ (n = zero ∨ ¬ (10 : ℤ) ∣ n.c)) ∧
    (∀ r n m, a.eqValue b = .ok r → a.normalized = .ok n → b.normalized = .ok m →
      (r = true ↔ n.c = m.c ∧ n.e = m.e)) ∧
    (a.I64Safe → b.I64Safe →
      a.cmpValue b = .ok (compare a.val b.val) ∧
      ∃ r n m, a.eqValue b = .ok r ∧ a.normalized = .ok n ∧ b.normalized = .ok m) := by
  refine ⟨?_, ?_, ?_, ?_⟩
  · have hcmp : Meets (· = Panic.overflow) (a.cmpValue b) (· = compare a.val b.val) :=
      meets_cmpValue (Or.inl rfl)
    rcases hcmp.stops_or_returns with h | ⟨o, ho, rfl⟩
    · exact Or.inl h
    · exact Or.inr ho
  · have hnorm := meets_normalized (T := (· = Panic.overflow)) (x := a) (Or.inl rfl)
    rcases hnorm.stops_or_returns with h | ⟨n, hn, hnormal, hv, -⟩
    · exact Or.inl h
    · exact Or.inr ⟨n, hn, hv, hnormal⟩
  · intro r n m hr hn hm
    have heq := (meets_eqValue (T := (· = Panic.overflow)) (Or.inl rfl)).of_eq_ok hr
    have hna := (meets_normalized (T := (· = Panic.overflow)) (Or.inl rfl)).of_eq_ok hn
    have hmb := (meets_normalized (T := (· = Panic.overflow)) (Or.inl rfl)).of_eq_ok hm
    rw [heq, ← hna.2.1, ← hmb.2.1]
    constructor
    · intro hv
      have := hna.1.unique hmb.1 hv
      simp [this]
    · rintro ⟨hc, he⟩
      rw [val, val, hc, he]
  · intro ha hb
    refine ⟨(meets_cmpValue (Or.inr ⟨ha, hb⟩)).eq_ok, ?_⟩
    rcases (meets_eqValue (Or.inr ⟨ha, hb⟩)).returns with ⟨r, hr, -⟩
    rcases (meets_normalized (Or.inr ha)).returns with ⟨n, hn, -⟩
    rcases (meets_normalized (Or.inr hb)).returns with ⟨m, hm, -⟩
    exact ⟨r, n, m, hr, hn, hm⟩

end Reference
end RainFloat
