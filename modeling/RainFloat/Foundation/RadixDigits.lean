import Mathlib.Algebra.Order.Field.Basic
import Mathlib.Tactic.Positivity
import RainFloat.Foundation.TruncatedGrid

/-!
# RadixDigits — digit counts and normal forms

* `length_toDigits_bounds`: the number of digits of `n` brackets `n` between two powers of the
  base;
* `normalForm_unique`: a nonzero number has only one representation `c * b ^ e` in which `b` does
  not divide `c`;
* `tdiv_cell`, `tdiv_mul_mem_uIcc`: integer division that truncates towards zero, placed next to
  the exact quotient.
-/

namespace RainFloat
namespace Foundation

/-! ## Digit counts -/

theorem length_toDigits_bounds {b n : ℕ} (hb : 1 < b) (hn : 0 < n) :
    b ^ ((Nat.toDigits b n).length - 1) ≤ n ∧ n < b ^ (Nat.toDigits b n).length := by
  have hpos : 0 < (Nat.toDigits b n).length := Nat.length_toDigits_pos
  constructor
  · -- One digit only bounds `n` by one; more digits mean that fewer do not suffice.
    rcases Nat.eq_or_lt_of_le (Nat.succ_le_of_lt hpos) with h1 | h1
    · simpa [← h1] using Nat.succ_le_of_lt hn
    · by_contra hlt
      have := (Nat.length_toDigits_le_iff hb (by omega)).2 (not_le.1 hlt)
      omega
  · exact (Nat.length_toDigits_le_iff hb hpos).1 le_rfl

/-! ## Normal forms -/

section NormalForm

variable {K : Type*} [Field K] [LinearOrder K] [IsStrictOrderedRing K] {b : ℕ}

private theorem normalForm_unique_of_le (hb : 2 ≤ b) {c c' e e' : ℤ} (hc : ¬ (b : ℤ) ∣ c)
    (h : (c : K) * (b : K) ^ e = c' * (b : K) ^ e') (hle : e ≤ e') : c = c' ∧ e = e' := by
  have hpos : (0 : K) < (b : K) ^ e := radix_zpow_pos hb e
  rw [intCast_mul_zpow_refine hb c' hle] at h
  have hcc : c = c' * (b : ℤ) ^ (e' - e).toNat := by
    exact_mod_cast mul_right_cancel₀ hpos.ne' h
  by_cases hee : e' - e = 0
  · refine ⟨?_, by omega⟩
    simpa [hee] using hcc
  · -- A positive power of `b` would divide `c`.
    exfalso
    have hk : (e' - e).toNat = (e' - e - 1).toNat + 1 := by omega
    apply hc
    rw [hcc, hk, pow_succ, ← mul_assoc]
    exact dvd_mul_left _ _

theorem normalForm_unique (hb : 2 ≤ b) {c c' e e' : ℤ} (hc : ¬ (b : ℤ) ∣ c)
    (hc' : ¬ (b : ℤ) ∣ c') (h : (c : K) * (b : K) ^ e = c' * (b : K) ^ e') :
    c = c' ∧ e = e' := by
  rcases le_total e e' with hle | hle
  · exact normalForm_unique_of_le hb hc h hle
  · rcases normalForm_unique_of_le hb hc' h.symm hle with ⟨h1, h2⟩
    exact ⟨h1.symm, h2.symm⟩

end NormalForm

/-! ## Truncating division -/

section TruncatingDivision

variable {K : Type*} [Field K] [LinearOrder K] [IsStrictOrderedRing K]

private theorem natCast_div_eq_add (m n : ℕ) (hn : n ≠ 0) :
    (m : K) / n = (m / n : ℕ) + ((m % n : ℕ) : K) / n := by
  have hn' : (n : K) ≠ 0 := by exact_mod_cast hn
  have hsplit : (m : K) = n * (m / n : ℕ) + (m % n : ℕ) := by
    exact_mod_cast (Nat.div_add_mod m n).symm
  rw [div_eq_iff hn', add_mul, div_mul_cancel₀ _ hn', mul_comm ((m / n : ℕ) : K)]
  exact hsplit

/-- An exact quotient lies in the cell of its truncated quotient, on the same side of zero. -/
theorem tdiv_cell (c : ℤ) {d : ℤ} (hd : d ≠ 0) :
    ∃ (n : ℕ) (r : K), 0 ≤ r ∧ r < 1 ∧
      ((c.tdiv d = n ∧ (c : K) / d = n + r) ∨ (c.tdiv d = -n ∧ (c : K) / d = -(n + r))) := by
  have hd' : d.natAbs ≠ 0 := by omega
  have hpos : (0 : K) < d.natAbs := by exact_mod_cast Nat.pos_of_ne_zero hd'
  have hlt : ((c.natAbs % d.natAbs : ℕ) : K) < d.natAbs := by
    exact_mod_cast Nat.mod_lt _ (Nat.pos_of_ne_zero hd')
  refine ⟨c.natAbs / d.natAbs, ((c.natAbs % d.natAbs : ℕ) : K) / d.natAbs, by positivity,
    (div_lt_one hpos).2 hlt, ?_⟩
  rw [← natCast_div_eq_add _ _ hd']
  -- The four sign patterns: the quotient is nonnegative when the signs agree.
  rcases Int.natAbs_eq c with hc | hc <;> rcases Int.natAbs_eq d with hdd | hdd
  · refine Or.inl ⟨?_, ?_⟩
    · conv_lhs => rw [hc, hdd, ← Int.ofNat_tdiv]
    · conv_lhs => rw [hc, hdd, Int.cast_natCast, Int.cast_natCast]
  · refine Or.inr ⟨?_, ?_⟩
    · conv_lhs => rw [hc, hdd, Int.tdiv_neg, ← Int.ofNat_tdiv]
    · conv_lhs => rw [hc, hdd, Int.cast_neg, Int.cast_natCast, Int.cast_natCast, div_neg]
  · refine Or.inr ⟨?_, ?_⟩
    · conv_lhs => rw [hc, hdd, Int.neg_tdiv, ← Int.ofNat_tdiv]
    · conv_lhs => rw [hc, hdd, Int.cast_neg, Int.cast_natCast, Int.cast_natCast, neg_div]
  · refine Or.inl ⟨?_, ?_⟩
    · conv_lhs => rw [hc, hdd, Int.neg_tdiv_neg, ← Int.ofNat_tdiv]
    · conv_lhs =>
        rw [hc, hdd, Int.cast_neg, Int.cast_neg, Int.cast_natCast, Int.cast_natCast, neg_div_neg_eq]

/-- Of the multiples of `u` between zero and a number in the cell `[n * u, (n + 1) * u)`, the one by
`n` lies farthest from zero. -/
private theorem mul_mem_uIcc_of_cell {n : ℕ} {r u x : K} (hr0 : 0 ≤ r) (hr1 : r < 1) (hu : 0 < u)
    (hx : x = (n + r) * u) :
    ((n : ℤ) : K) * u ∈ Set.uIcc 0 x ∧
      ∀ m : ℤ, (m : K) * u ∈ Set.uIcc 0 x → |m| ≤ (n : ℤ) := by
  have hx0 : 0 ≤ x := by
    rw [hx]
    positivity
  simp only [mem_uIcc_zero_of_nonneg hx0]
  refine ⟨⟨by positivity, by push_cast; nlinarith⟩, ?_⟩
  rintro m ⟨hm0, hmx⟩
  have h0 : (0 : K) ≤ m := by nlinarith
  have h1 : (m : K) < (n : ℤ) + 1 := by
    push_cast
    nlinarith
  have h0' : 0 ≤ m := by exact_mod_cast h0
  have h1' : m < (n : ℤ) + 1 := by exact_mod_cast h1
  rw [abs_of_nonneg h0']
  omega

/-- The truncated quotient, in units of `u`, is the multiple of `u` that lies farthest from zero on
the way to the exact quotient. -/
theorem tdiv_mul_mem_uIcc (c : ℤ) {d : ℤ} (hd : d ≠ 0) {u x : K} (hu : 0 < u)
    (hx : x = (c : K) / d * u) :
    ((c.tdiv d : ℤ) : K) * u ∈ Set.uIcc 0 x ∧
      ∀ m : ℤ, (m : K) * u ∈ Set.uIcc 0 x → |m| ≤ |c.tdiv d| := by
  rcases tdiv_cell (K := K) c hd with ⟨n, r, hr0, hr1, ⟨hq, hexact⟩ | ⟨hq, hexact⟩⟩
  · have hcell := mul_mem_uIcc_of_cell hr0 hr1 hu (hx.trans (by rw [hexact]))
    simpa [hq] using hcell
  · -- The mirror image, seen from `-x`.
    have hx' : -x = (n + r) * u := by rw [hx, hexact, neg_mul, neg_neg]
    rcases mul_mem_uIcc_of_cell hr0 hr1 hu hx' with ⟨hmem, hmax⟩
    rw [hq]
    constructor
    · rw [← neg_mem_uIcc_zero, Int.cast_neg, neg_mul, neg_neg]
      exact hmem
    · intro m hm
      rw [← neg_mem_uIcc_zero, ← neg_mul, ← Int.cast_neg] at hm
      simpa using hmax (-m) hm

/-- A quotient truncates into `S` like its truncated quotient, in units of `u`, when the elements of
`S` beyond the latter are multiples of `u`. -/
theorem sameBelow_tdiv {S : Set K} (c : ℤ) {d : ℤ} (hd : d ≠ 0) {u : K} (hu : 0 < u)
    (hS : ∀ z ∈ S, ((|c.tdiv d| : ℤ) : K) * u < |z| → ∃ m : ℤ, z = m * u) :
    SameBelow S ((c : K) / d * u) (((c.tdiv d : ℤ) : K) * u) := by
  rcases tdiv_cell (K := K) c hd with ⟨n, r, hr0, hr1, hcase⟩
  have habs : |c.tdiv d| = (n : ℤ) := by
    rcases hcase with ⟨hq, -⟩ | ⟨hq, -⟩ <;> rw [hq] <;> simp
  have hw : (n : K) * u = ((n : ℤ) : K) * u := by push_cast; rfl
  have hru : r * u < u := by nlinarith
  rw [habs] at hS
  push_cast at hS
  rcases hcase with ⟨hq, hexact⟩ | ⟨hq, hexact⟩
  · have := sameBelow_of_same_cell hu hw (by positivity) (mul_nonneg hr0 hu.le) hru le_rfl hu hS
    rw [hq, hexact, add_mul, Int.cast_natCast]
    simpa using this
  · have := sameBelow_neg_of_same_cell hu hw (by positivity) (mul_nonneg hr0 hu.le) hru le_rfl hu hS
    rw [hq, hexact, neg_mul, add_mul, Int.cast_neg, Int.cast_natCast, neg_mul]
    simpa using this

end TruncatingDivision

/-! ## The integer part -/

section IntegerPart

variable {K : Type*} [Field K] [LinearOrder K] [FloorRing K]

/-- The integer nearest to `x` on the way to zero. -/
def towardZero (x : K) : ℤ :=
  if 0 ≤ x then ⌊x⌋ else ⌈x⌉

theorem towardZero_of_nonneg {x : K} (hx : 0 ≤ x) : towardZero x = ⌊x⌋ :=
  if_pos hx

theorem towardZero_of_neg {x : K} (hx : x < 0) : towardZero x = ⌈x⌉ :=
  if_neg hx.not_ge

/-- Larger numbers have larger integer parts. -/
theorem towardZero_mono {x y : K} (h : x ≤ y) : towardZero x ≤ towardZero y := by
  rcases lt_or_ge y 0 with hy | hy
  · rw [towardZero_of_neg hy, towardZero_of_neg (h.trans_lt hy)]
    exact Int.ceil_le_ceil h
  rcases lt_or_ge x 0 with hx | hx
  · -- The sign changes on the way, and zero lies between.
    rw [towardZero_of_neg hx, towardZero_of_nonneg hy]
    have hceil : ⌈x⌉ ≤ 0 := Int.ceil_le.2 (by simpa using hx.le)
    exact hceil.trans (Int.floor_nonneg.2 hy)
  · rw [towardZero_of_nonneg hx, towardZero_of_nonneg hy]
    exact Int.floor_le_floor h

variable [IsStrictOrderedRing K]

@[simp] theorem towardZero_intCast (n : ℤ) : towardZero (n : K) = n := by
  unfold towardZero
  split <;> simp

theorem towardZero_of_abs_lt_one {x : K} (hx : |x| < 1) : towardZero x = 0 := by
  rw [abs_lt] at hx
  rcases le_or_gt 0 x with h0 | h0
  · rw [towardZero_of_nonneg h0, Int.floor_eq_iff]
    push_cast
    constructor <;> linarith
  · rw [towardZero_of_neg h0, Int.ceil_eq_iff]
    push_cast
    constructor <;> linarith

/-- Truncating division is the integer part of the exact quotient. -/
theorem tdiv_eq_towardZero (c : ℤ) {d : ℤ} (hd : d ≠ 0) :
    c.tdiv d = towardZero ((c : K) / d) := by
  rcases tdiv_cell (K := K) c hd with ⟨n, r, hr0, hr1, ⟨hq, hexact⟩ | ⟨hq, hexact⟩⟩
  · rw [hq, hexact, towardZero_of_nonneg (by positivity), eq_comm, Int.floor_eq_iff]
    push_cast
    constructor <;> linarith
  · rw [hq, hexact]
    rcases (by positivity : (0 : K) ≤ n + r).eq_or_lt with h0 | hpos
    · -- The quotient vanishes, and so does `n`.
      have hn : (n : K) = 0 := by
        have : (0 : K) ≤ n := by positivity
        linarith
      have hn' : n = 0 := by exact_mod_cast hn
      have hr : r = 0 := by linarith
      simp [hn', hr, towardZero]
    · rw [towardZero_of_neg (by linarith), eq_comm, Int.ceil_eq_iff]
      push_cast
      constructor <;> linarith

/-- What the integer part leaves is less than one and has the sign of `x`. -/
theorem sub_towardZero_bounds (x : K) :
    |x - towardZero x| < 1 ∧
      (x - towardZero x = 0 ∨ SignType.sign (x - towardZero x) = SignType.sign x) := by
  rcases le_or_gt 0 x with hx | hx
  · rw [towardZero_of_nonneg hx]
    have h1 := Int.floor_le x
    have h2 := Int.lt_floor_add_one x
    have h3 : (0 : K) ≤ ⌊x⌋ := by exact_mod_cast Int.floor_nonneg.2 hx
    refine ⟨by rw [abs_of_nonneg] <;> linarith, ?_⟩
    rcases (sub_nonneg.2 h1).eq_or_lt with h0 | hpos
    · exact Or.inl h0.symm
    · exact Or.inr (by rw [sign_pos hpos, sign_pos (by linarith)])
  · rw [towardZero_of_neg hx]
    have h1 := Int.le_ceil x
    have h2 := Int.ceil_lt_add_one x
    refine ⟨by rw [abs_of_nonpos] <;> linarith, ?_⟩
    rcases (sub_nonpos.2 h1).eq_or_lt with h0 | hneg
    · exact Or.inl h0
    · exact Or.inr (by rw [sign_neg hneg, sign_neg hx])

/-- Below zero, the floor of a number that is no integer is one less than its integer part. -/
theorem floor_eq_towardZero_sub_one {x : K} (hx : x < 0) (hne : (towardZero x : K) ≠ x) :
    ⌊x⌋ = towardZero x - 1 := by
  rw [towardZero_of_neg hx] at hne ⊢
  rw [Int.floor_eq_iff]
  push_cast
  have h1 := Int.le_ceil x
  have h2 := Int.ceil_lt_add_one x
  have h3 := lt_of_le_of_ne h1 hne.symm
  constructor <;> linarith

end IntegerPart

end Foundation
end RainFloat
