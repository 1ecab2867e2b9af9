import RainFloat.Reference.Difference
import RainFloat.Reference.Thresholds

/-!
# Amounts — token amounts computed with Floats

An amount is an integer with a number of decimals.  It is read into a Float, computed with, and
written with some number of decimals again.

* `Rounds.pays`: what is written for a rounded result is never more than what is due;
* `amounts_settle`: one operation on two amounts pays what exact arithmetic pays;
* `decimals_convert`: so does a change of the number of decimals;
* `sums_of_amounts_exact`: sums of any number of amounts are exact, in any order.
-/

namespace RainFloat
namespace Reference

open Foundation Dec

/-! ## Moderate numbers -/

/-- Far from both ends of the exponent range. -/
structure Moderate (q : ℚ) : Prop where
  upper : |q| ≤ (10 : ℚ) ^ (1000 : ℤ)
  lower : q ≠ 0 → (10 : ℚ) ^ (-1000 : ℤ) ≤ |q|

theorem ten_zpow_mem {e : ℤ} (h : i32Min ≤ e) (h' : e ≤ i32Max) : (10 : ℚ) ^ e ∈ Representable :=
  ⟨1, e, by decide, h, h', by simp⟩

theorem neg_ten_zpow_mem {e : ℤ} (h : i32Min ≤ e) (h' : e ≤ i32Max) :
    -(10 : ℚ) ^ e ∈ Representable :=
  ⟨-1, e, by decide, h, h', by simp⟩

theorem Moderate.not_beyondExtremes {q : ℚ} (h : Moderate q) : ¬ BeyondExtremes q := by
  have habs := abs_le.1 h.upper
  rcases le_total 0 q with hq | hq
  · apply not_beyondExtremes_of_between (ten_zpow_mem (e := 1000) (by decide) (by decide))
    exact Or.inl ⟨hq, habs.2⟩
  · apply not_beyondExtremes_of_between (neg_ten_zpow_mem (e := 1000) (by decide) (by decide))
    exact Or.inr ⟨habs.1, hq⟩

/-- A moderate number rounds to a Float. -/
theorem Rounds.ok_of_moderate {q : ℚ} {r : Except RefError Dec} (h : Rounds q r)
    (hq : Moderate q) : ∃ v, r = .ok v := by
  match r, h with
  | .ok v, _ => exact ⟨v, rfl⟩
  | .error .exponentUnderflow, ⟨_, hne, hlt⟩ =>
      have hle : (10 : ℚ) ^ i32Min ≤ (10 : ℚ) ^ (-1000 : ℤ) := ten_zpow_le.2 (by decide)
      exact absurd (hle.trans (hq.lower hne)) hlt.not_ge
  | .error .exponentOverflow, hbeyond => exact absurd hbeyond hq.not_beyondExtremes

/-! ## What amounts stand for -/

/-- An amount is a multiple of the smallest one and has at most 78 digits. -/
theorem fixedValue_bounds (v : U256) (d : UInt8) :
    (∃ n : ℤ, (fixedValue v d).val = (n : ℚ) * (10 : ℚ) ^ (-255 : ℤ)) ∧
      0 ≤ (fixedValue v d).val ∧ (fixedValue v d).val ≤ (10 : ℚ) ^ (78 : ℤ) := by
  have hd := decimals_le d
  refine ⟨?_, fixedValue_val_nonneg v d, ?_⟩
  · have he : (-255 : ℤ) ≤ (fixedValue v d).e := by
      dsimp only [fixedValue]
      omega
    exact ⟨_, (aligned_mul_zpow he).symm⟩
  · have hv : (v.val : ℚ) ≤ 2 ^ 256 := by exact_mod_cast v.isLt.le
    have hpow : (1 : ℚ) ≤ (10 : ℚ) ^ d.toNat := one_le_pow₀ (by norm_num)
    rw [fixedValue_val]
    calc
      (v.val : ℚ) / (10 : ℚ) ^ d.toNat ≤ v.val := div_le_self (by positivity) hpow
      _ ≤ 2 ^ 256 := hv
      _ ≤ (10 : ℚ) ^ (78 : ℤ) := by norm_num

section Moderate

variable {p q : ℚ} {m n : ℤ}

/-- One operation on amounts leads to a moderate number. -/
theorem moderate_of_amounts (hp : p = (m : ℚ) * (10 : ℚ) ^ (-255 : ℤ))
    (hq : q = (n : ℚ) * (10 : ℚ) ^ (-255 : ℤ)) (hp0 : 0 ≤ p) (hq0 : 0 ≤ q)
    (hple : p ≤ (10 : ℚ) ^ (78 : ℤ)) (hqle : q ≤ (10 : ℚ) ^ (78 : ℤ)) :
    Moderate (p + q) ∧ Moderate (p - q) ∧ Moderate (p * q) ∧ Moderate (p / q) := by
  have hsmall : (10 : ℚ) ^ (-1000 : ℤ) ≤ (10 : ℚ) ^ (-255 : ℤ) := ten_zpow_le.2 (by norm_num)
  have hlarge : p + q ≤ (10 : ℚ) ^ (1000 : ℤ) := by
    calc
      p + q ≤ (10 : ℚ) ^ (78 : ℤ) + (10 : ℚ) ^ (78 : ℤ) := add_le_add hple hqle
      _ ≤ (10 : ℚ) ^ (79 : ℤ) := by norm_num
      _ ≤ (10 : ℚ) ^ (1000 : ℤ) := ten_zpow_le.2 (by norm_num)
  -- Each result is bounded, and it is zero or a multiple of a unit that is not too small.
  refine ⟨⟨?_, ?_⟩, ⟨?_, ?_⟩, ⟨?_, ?_⟩, ⟨?_, ?_⟩⟩
  · rw [abs_of_nonneg (add_nonneg hp0 hq0)]
    exact hlarge
  · intro hne
    have hsum : p + q = ((m + n : ℤ) : ℚ) * (10 : ℚ) ^ (-255 : ℤ) := by
      rw [hp, hq]
      push_cast
      ring
    exact hsmall.trans (le_abs_of_multiple hsum hne)
  · calc
      |p - q| ≤ |p| + |q| := abs_sub p q
      _ = p + q := by rw [abs_of_nonneg hp0, abs_of_nonneg hq0]
      _ ≤ (10 : ℚ) ^ (1000 : ℤ) := hlarge
  · intro hne
    have hdiff : p - q = ((m - n : ℤ) : ℚ) * (10 : ℚ) ^ (-255 : ℤ) := by
      rw [hp, hq]
      push_cast
      ring
    exact hsmall.trans (le_abs_of_multiple hdiff hne)
  · rw [abs_of_nonneg (mul_nonneg hp0 hq0)]
    calc
      p * q ≤ (10 : ℚ) ^ (78 : ℤ) * (10 : ℚ) ^ (78 : ℤ) :=
        mul_le_mul hple hqle hq0 (ten_zpow_pos _).le
      _ = (10 : ℚ) ^ (156 : ℤ) := by rw [← ten_zpow_add]; norm_num
      _ ≤ (10 : ℚ) ^ (1000 : ℤ) := ten_zpow_le.2 (by norm_num)
  · intro hne
    have hprod : p * q = ((m * n : ℤ) : ℚ) * (10 : ℚ) ^ (-510 : ℤ) := by
      rw [hp, hq, show (-510 : ℤ) = -255 + -255 by norm_num, ten_zpow_add]
      push_cast
      ring
    calc
      (10 : ℚ) ^ (-1000 : ℤ) ≤ (10 : ℚ) ^ (-510 : ℤ) := ten_zpow_le.2 (by norm_num)
      _ ≤ |p * q| := le_abs_of_multiple hprod hne
  · rw [abs_of_nonneg (div_nonneg hp0 hq0)]
    rcases hq0.eq_or_lt with rfl | hqpos
    · rw [div_zero]
      exact (ten_zpow_pos _).le
    · have hunit := le_abs_of_multiple hq hqpos.ne'
      rw [abs_of_pos hqpos] at hunit
      calc
        p / q ≤ (10 : ℚ) ^ (78 : ℤ) / (10 : ℚ) ^ (-255 : ℤ) :=
          div_le_div₀ (ten_zpow_pos _).le hple (ten_zpow_pos _) hunit
        _ = (10 : ℚ) ^ (333 : ℤ) := by rw [← zpow_sub₀ (by norm_num)]; norm_num
        _ ≤ (10 : ℚ) ^ (1000 : ℤ) := ten_zpow_le.2 (by norm_num)
  · intro hne
    have hp' : p ≠ 0 := fun h => hne (by rw [h, zero_div])
    have hq' : q ≠ 0 := fun h => hne (by rw [h, div_zero])
    have hunit := le_abs_of_multiple hp hp'
    rw [abs_of_nonneg hp0] at hunit
    rw [abs_of_nonneg (div_nonneg hp0 hq0)]
    calc
      (10 : ℚ) ^ (-1000 : ℤ) ≤ (10 : ℚ) ^ (-333 : ℤ) := ten_zpow_le.2 (by norm_num)
      _ = (10 : ℚ) ^ (-255 : ℤ) / (10 : ℚ) ^ (78 : ℤ) := by
        rw [← zpow_sub₀ (by norm_num)]; norm_num
      _ ≤ p / q := div_le_div₀ hp0 hunit (hq0.lt_of_ne' hq') hqle

end Moderate

/-! ## Paying -/

/-- What is written for an amount of `q` with some number of decimals: nothing for a debt, and
otherwise never more than is due.  Up to the largest coefficient it is what is due, in whole units,
and is reported as exact if there are no fractions of a unit.  Only what no `U256` holds is refused
as too large. -/
structure Pays (q : ℚ) (decimals : UInt8) (r : Except RefError (U256 × Bool)) : Prop where
  debt : q < 0 → r = .error .negativeFixedDecimalConversion
  refused : 0 ≤ q → ∀ e, r = .error e →
    e = .fixedDecimalOverflow ∧ 2 ^ 256 - 1 < ⌊q * (10 : ℚ) ^ decimals.toNat⌋
  most : ∀ w b, r = .ok (w, b) → (w.val : ℤ) ≤ ⌊q * (10 : ℚ) ^ decimals.toNat⌋
  due : 0 ≤ q → ⌊q * (10 : ℚ) ^ decimals.toNat⌋ ≤ int224Max →
    ∃ w b, r = .ok (w, b) ∧ (w.val : ℤ) = ⌊q * (10 : ℚ) ^ decimals.toNat⌋ ∧
      ((∃ n : ℤ, q * (10 : ℚ) ^ decimals.toNat = n) → b = true)

/-- A rounded result pays what the exact one would. -/
theorem Rounds.pays {q : ℚ} {v : Dec} (h : Rounds q (.ok v)) (decimals : UInt8) :
    ∃ r, toFixedDecimalLossy v decimals = .ok r ∧ Pays q decimals r := by
  have hpow : (0 : ℚ) < (10 : ℚ) ^ decimals.toNat := by positivity
  have hv : IsFloat v := h.2.2.1
  have htrunc : TruncatesTo Representable q v.val := h.2.2.2
  rcases (meets_toFixedDecimalLossy hv decimals).returns with ⟨r, hrun, hwrites⟩
  -- Above zero the rounded amount is not larger.
  have hfloor : 0 ≤ q →
      ⌊v.val * (10 : ℚ) ^ decimals.toNat⌋ ≤ ⌊q * (10 : ℚ) ^ decimals.toNat⌋ := by
    intro hq
    apply Int.floor_le_floor
    exact mul_le_mul_of_nonneg_right (htrunc.le_self hq) hpow.le
  refine ⟨r, hrun, ?_, ?_, ?_, ?_⟩
  · intro hq
    have hv0 : v.val < 0 := lt_of_le_of_ne (htrunc.nonpos hq.le) (h.2.1 hq.ne)
    apply (writesFixed_iff hwrites).1.2
    exact mul_neg_of_neg_of_pos hv0 hpow
  · -- What is refused is no debt, so there are too many units, and no fewer are due.
    intro hq e he
    subst he
    match e, hwrites with
    | .negativeFixedDecimalConversion, hneg =>
        exact absurd hneg (mul_nonneg (htrunc.nonneg hq) hpow.le).not_gt
    | .fixedDecimalOverflow, ⟨_, hlt⟩ => exact ⟨rfl, hlt.trans_le (hfloor hq)⟩
  · rintro w b rfl
    rcases hwrites with ⟨hnonneg, hw, -⟩
    have hv0 : 0 ≤ v.val := nonneg_of_mul_nonneg_left hnonneg hpow
    have hq0 : 0 ≤ q := by
      by_contra hq
      rw [not_le] at hq
      exact absurd (lt_of_le_of_ne (htrunc.nonpos hq.le) (h.2.1 hq.ne)) hv0.not_gt
    rw [hw]
    exact hfloor hq0
  · intro hq hle
    rcases h.settles.2 decimals hq hle with ⟨w, b, hrun', hw, hb⟩
    rw [hrun] at hrun'
    exact ⟨w, b, Except.ok.inj hrun', hw, hb⟩

/-! ## Operations on amounts -/

/-- Two amounts are read, combined, and the result is written. -/
def settle (op : Dec → Dec → Exec (Except RefError Dec)) (v : U256) (d : UInt8) (w : U256)
    (d' decimals : UInt8) : Exec (Except RefError (U256 × Bool)) := do
  let a ← fromFixedDecimalLossless v d
  match a with
  | .error e => pure (.error e)
  | .ok a =>
    let b ← fromFixedDecimalLossless w d'
    match b with
    | .error e => pure (.error e)
    | .ok b =>
      let r ← op a b
      match r with
      | .error e => pure (.error e)
      | .ok r => toFixedDecimalLossy r decimals

/-- Reading an amount whose digits do not fit a coefficient fails. -/
theorem meets_readAmount {T : Panic → Prop} (v : U256) (d : UInt8) :
    Meets T (fromFixedDecimalLossless v d) fun r =>
      (∃ a, r = .ok a ∧ IsFloat a ∧ a.val = (fixedValue v d).val) ∨
        (fixedValue v d).val ∉ Representable ∧ r = .error .lossyConversionToFloat := by
  refine (meets_fromFixedDecimalLossy v d).bind ?_
  rintro ⟨a, lossless⟩ ⟨ha, htrunc, hlossless⟩
  cases lossless with
  | true => exact Or.inl ⟨a, rfl, ha, hlossless.1 rfl⟩
  | false =>
      refine Or.inr ⟨?_, rfl⟩
      intro hmem
      exact absurd (hlossless.2 (htrunc.eq_of_mem hmem)) (by simp)

section Settle

variable {op : Dec → Dec → Exec (Except RefError Dec)} {g : ℚ → ℚ → ℚ}

/-- The outcome of one operation on two amounts, `q` being its exact result. -/
def SettlesTo (v : U256) (d : UInt8) (w : U256) (d' decimals : UInt8) (q : ℚ)
    (r : Except RefError (U256 × Bool)) : Prop :=
  ((fixedValue v d).val ∉ Representable ∨ (fixedValue w d').val ∉ Representable →
    r = .error .lossyConversionToFloat) ∧
  ((fixedValue v d).val ∈ Representable → (fixedValue w d').val ∈ Representable →
    Pays q decimals r)

/-- An operation that rounds its exact result once. -/
theorem meets_settle (v : U256) (d : UInt8) (w : U256) (d' decimals : UInt8)
    (hop : ∀ a b, IsFloat a → IsFloat b → b.val = (fixedValue w d').val →
      Meets (fun _ => False) (op a b) (Rounds (g a.val b.val)))
    (hmoderate : Moderate (g (fixedValue v d).val (fixedValue w d').val)) :
    Meets (fun _ => False) (settle op v d w d' decimals)
      (SettlesTo v d w d' decimals (g (fixedValue v d).val (fixedValue w d').val)) := by
  refine (meets_readAmount v d).bind ?_
  rintro _ (⟨a, rfl, ha, haval⟩ | ⟨hv, rfl⟩)
  · refine (meets_readAmount w d').bind ?_
    rintro _ (⟨b, rfl, hb, hbval⟩ | ⟨hw, rfl⟩)
    · refine (hop a b ha hb hbval).bind ?_
      intro r hr
      rw [haval, hbval] at hr
      -- Neither end of the exponent range is near, so there is a result to be written.
      rcases hr.ok_of_moderate hmoderate with ⟨c, rfl⟩
      rcases hr.pays decimals with ⟨r, hrun, hpays⟩
      change Meets _ (toFixedDecimalLossy c decimals) _
      rw [hrun]
      refine ⟨?_, fun _ _ => hpays⟩
      intro hnot
      rw [← haval, ← hbval] at hnot
      rcases hnot with hnot | hnot
      · exact absurd ha.val_mem hnot
      · exact absurd hb.val_mem hnot
    · exact ⟨fun _ => rfl, fun _ hmem => absurd hmem hw⟩
  · exact ⟨fun _ => rfl, fun hmem _ => absurd hmem hv⟩

end Settle

/-- Nothing is divided by an amount of zero, which is found out once both are read. -/
theorem meets_settle_zero_divisor (v : U256) (d : UInt8) (w : U256) (d' decimals : UInt8)
    (h0 : (fixedValue w d').val = 0) :
    Meets (fun _ => False) (settle div v d w d' decimals) fun r =>
      ((fixedValue v d).val ∉ Representable → r = .error .lossyConversionToFloat) ∧
      ((fixedValue v d).val ∈ Representable → r = .error .divisionByZero) := by
  refine (meets_readAmount v d).bind ?_
  rintro _ (⟨a, rfl, ha, haval⟩ | ⟨hv, rfl⟩)
  · rw [← haval]
    refine (meets_readAmount w d').bind ?_
    rintro _ (⟨b, rfl, -, hbval⟩ | ⟨hw, rfl⟩)
    · rw [h0, val_eq_zero_iff] at hbval
      dsimp only
      rw [div_zero_divisor a hbval]
      exact ⟨fun hnot => absurd ha.val_mem hnot, fun _ => rfl⟩
    · -- Zero is a Float.
      rw [h0] at hw
      exact absurd zero_mem_representable hw
  · exact ⟨fun _ => rfl, fun hmem => absurd hmem hv⟩

/-- Token amounts can be computed with Floats.  The sum, difference, product and quotient of any
two amounts, written with any number of decimals, are what exact arithmetic pays in whole units,
whenever this fits a coefficient; beyond that nothing is overpaid, and what is refused is a debt or
more units than there are.  A division by an amount of zero fails as such, unless the dividend could
not be read. -/
theorem amounts_settle (v : U256) (d : UInt8) (w : U256) (d' decimals : UInt8) :
    (∃ r, settle add v d w d' decimals = .ok r ∧
      SettlesTo v d w d' decimals ((fixedValue v d).val + (fixedValue w d').val) r) ∧
    (∃ r, settle sub v d w d' decimals = .ok r ∧
      SettlesTo v d w d' decimals ((fixedValue v d).val - (fixedValue w d').val) r) ∧
    (∃ r, settle mul v d w d' decimals = .ok r ∧
      SettlesTo v d w d' decimals ((fixedValue v d).val * (fixedValue w d').val) r) ∧
    ((fixedValue w d').val ≠ 0 → ∃ r, settle div v d w d' decimals = .ok r ∧
      SettlesTo v d w d' decimals ((fixedValue v d).val / (fixedValue w d').val) r) ∧
    ((fixedValue w d').val = 0 → ∃ r, settle div v d w d' decimals = .ok r ∧
      ((fixedValue v d).val ∉ Representable → r = .error .lossyConversionToFloat) ∧
      ((fixedValue v d).val ∈ Representable → r = .error .divisionByZero)) := by
  rcases fixedValue_bounds v d with ⟨⟨m, hm⟩, hv0, hvle⟩
  rcases fixedValue_bounds w d' with ⟨⟨n, hn⟩, hw0, hwle⟩
  rcases moderate_of_amounts hm hn hv0 hw0 hvle hwle with ⟨hadd, hsub, hmul, hdiv⟩
  refine ⟨?_, ?_, ?_, ?_, fun h0 => (meets_settle_zero_divisor v d w d' decimals h0).returns⟩
  · apply Meets.returns
    apply meets_settle (g := fun p q => p + q) v d w d' decimals ?_ hadd
    intro a b ha hb _
    exact meets_add ha.isOperand hb.isOperand
  · apply Meets.returns
    apply meets_settle (g := fun p q => p - q) v d w d' decimals ?_ hsub
    intro a b ha hb _
    exact meets_sub ha hb
  · apply Meets.returns
    apply meets_settle (g := fun p q => p * q) v d w d' decimals ?_ hmul
    intro a b ha hb _
    exact meets_mul ha hb
  · intro h0
    apply Meets.returns
    apply meets_settle (g := fun p q => p / q) v d w d' decimals ?_ hdiv
    intro a b ha hb hbval
    have hb0 : b.c ≠ 0 := by
      intro hc
      apply h0
      rw [← hbval, val_eq_zero_iff.2 hc]
    exact meets_div ha hb hb0

/-- Ten units of a token with six decimals over three units of one with eighteen, and over none. -/
theorem amounts_settle_third :
    (∃ r, settle div 10000000 6 3000000000000000000 18 2 = .ok r ∧
      SettlesTo 10000000 6 3000000000000000000 18 2
        ((fixedValue 10000000 6).val / (fixedValue 3000000000000000000 18).val) r) ∧
    settle div 10000000 6 0 18 2 = .ok (.error .divisionByZero) := by
  constructor
  · apply (amounts_settle 10000000 6 3000000000000000000 18 2).2.2.2.1
    rw [Ne, val_eq_zero_iff]
    decide
  · have hzero : (fixedValue 0 18).val = 0 := by
      rw [val_eq_zero_iff]
      decide
    have hmem : (fixedValue 10000000 6).val ∈ Representable :=
      (isFloat_fixedValue 6 (by decide)).val_mem
    rcases (amounts_settle 10000000 6 0 18 2).2.2.2.2 hzero with ⟨r, hr, -, hdivisor⟩
    rw [hr, hdivisor hmem]

/-! ## Changing the number of decimals -/

/-- An amount is read as well as possible and written with another number of decimals. -/
def convertDecimals (v : U256) (d decimals : UInt8) : Exec (Except RefError (U256 × Bool)) := do
  let r ← fromFixedDecimalLossy v d
  toFixedDecimalLossy r.1 decimals

/-- Converting an amount to another number of decimals gives what is due in whole units, whenever
this fits a coefficient, and never more; an amount that fits one to begin with is converted exactly
or reported as too large. -/
theorem decimals_convert (v : U256) (d decimals : UInt8) :
    ∃ r, convertDecimals v d decimals = .ok r ∧ Pays (fixedValue v d).val decimals r ∧
      ((v.val : ℤ) ≤ int224Max →
        WritesFixed ((fixedValue v d).val * (10 : ℚ) ^ decimals.toNat) r) := by
  apply Meets.returns
  refine (meets_fromFixedDecimalLossy v d).bind ?_
  rintro ⟨f, lossless⟩ ⟨hf, htrunc, -⟩
  -- Reading is one rounding of the amount.
  have hround : Rounds (fixedValue v d).val (.ok f) := by
    refine ⟨not_beyondExtremes_fixedValue v d, ?_, hf, htrunc⟩
    intro h0 hf0
    exact smallest_le_fixedValue h0 ((truncatesTo_representable_eq_zero htrunc).1 hf0)
  rcases hround.pays decimals with ⟨r, hrun, hpays⟩
  dsimp only
  rw [hrun]
  refine ⟨hpays, ?_⟩
  intro hv
  have hwrites := (meets_toFixedDecimalLossy (T := fun _ => False) hf decimals).of_eq_ok hrun
  -- An amount that fits a coefficient is read as it is.
  rwa [htrunc.eq_of_mem (isFloat_fixedValue d hv).val_mem] at hwrites

/-! ## Sums of amounts -/

/-- Amounts are read and added up one by one, each with its own number of decimals. -/
def sumAmounts (acc : Dec) : List (U256 × UInt8) → Exec (Except RefError Dec)
  | [] => pure (.ok acc)
  | (v, d) :: rest => do
    let a ← fromFixedDecimalLossless v d
    match a with
    | .error e => pure (.error e)
    | .ok a =>
      let s ← add acc a
      match s with
      | .error e => pure (.error e)
      | .ok s => sumAmounts s rest

/-- An amount in units of `10^-decimals`. -/
def unitsOf (decimals : UInt8) (amount : U256 × UInt8) : ℕ :=
  amount.1.val * 10 ^ (decimals.toNat - amount.2.toNat)

theorem unitsOf_eq {decimals d : UInt8} (v : U256) (h : d ≤ decimals) :
    (unitsOf decimals (v, d) : ℚ) / (10 : ℚ) ^ decimals.toNat = (fixedValue v d).val := by
  have hle : d.toNat ≤ decimals.toNat := UInt8.le_iff_toNat_le.1 h
  have hsplit : (10 : ℚ) ^ decimals.toNat =
      (10 : ℚ) ^ (decimals.toNat - d.toNat) * (10 : ℚ) ^ d.toNat := by
    rw [← pow_add, Nat.sub_add_cancel hle]
  rw [fixedValue_val, hsplit, unitsOf]
  push_cast
  field_simp

/-- The running total is a number of units at every step, so no addition rounds. -/
theorem meets_sumAmounts (decimals : UInt8) (amounts : List (U256 × UInt8)) :
    ∀ (acc : Dec) (m : ℕ), IsFloat acc → acc.val = (m : ℚ) / (10 : ℚ) ^ decimals.toNat →
      (∀ a ∈ amounts, a.2 ≤ decimals) →
      ((m + (amounts.map (unitsOf decimals)).sum : ℕ) : ℤ) ≤ int224Max →
      Meets (fun _ => False) (sumAmounts acc amounts) fun r => ∃ s, r = .ok s ∧ IsFloat s ∧
        s.val = ((m + (amounts.map (unitsOf decimals)).sum : ℕ) : ℚ) /
          (10 : ℚ) ^ decimals.toNat := by
  have hmem : ∀ n : ℕ, (n : ℤ) ≤ int224Max →
      (n : ℚ) / (10 : ℚ) ^ decimals.toNat ∈ Representable := by
    intro n hn
    have hfit : fitsInt224 (n : ℤ) = true := by
      apply fitsInt224_iff.2
      exact ⟨int224Min_neg.le.trans (Int.natCast_nonneg n), hn⟩
    simpa using units_mem hfit decimals
  induction amounts with
  | nil =>
      intro acc m hacc hval _ _
      exact ⟨acc, rfl, hacc, by simpa using hval⟩
  | cons amount rest ih =>
      intro acc m hacc hval hdecimals hfit
      rcases amount with ⟨v, d⟩
      rw [List.forall_mem_cons] at hdecimals
      rw [List.map_cons, List.sum_cons, ← Nat.add_assoc] at hfit ⊢
      have hd : d ≤ decimals := hdecimals.1
      have hunits := unitsOf_eq v hd
      refine (meets_readAmount v d).bind ?_
      rintro _ (⟨a, rfl, ha, haval⟩ | ⟨hnot, rfl⟩)
      · have hsum : acc.val + a.val =
            ((m + unitsOf decimals (v, d) : ℕ) : ℚ) / (10 : ℚ) ^ decimals.toNat := by
          rw [hval, haval, ← hunits]
          push_cast
          ring
        refine (meets_add hacc.isOperand ha.isOperand).bind ?_
        intro r hr
        rw [hsum] at hr
        -- The total so far is a number of units that fits, so the addition is exact.
        rcases hr.exact (hmem _ (by omega)) with ⟨s, rfl, hs, hsval⟩
        exact ih s _ hs hsval hdecimals.2 hfit
      · exact absurd (hunits ▸ hmem _ (by omega)) hnot

/-- Ledgers add up.  The sum of any number of amounts, whatever their decimals, is exact and is
written losslessly in the finest units among them, if it fits a coefficient in these units; the
order in which they are added up changes neither its value nor what is written. -/
theorem sums_of_amounts_exact (amounts : List (U256 × UInt8)) (decimals : UInt8)
    (hdecimals : ∀ a ∈ amounts, a.2 ≤ decimals)
    (hfit : (((amounts.map (unitsOf decimals)).sum : ℕ) : ℤ) ≤ int224Max) :
    ∃ (s : Dec) (total : U256), total.val = (amounts.map (unitsOf decimals)).sum ∧
      toFixedDecimalLossless s decimals = .ok (.ok total) ∧
      ∀ amounts', amounts'.Perm amounts →
        ∃ s', sumAmounts zero amounts' = .ok (.ok s') ∧ SameFloat s s' ∧
          toFixedDecimalLossless s' decimals = .ok (.ok total) := by
  -- Every order of the amounts adds up to the same number of units.
  have hrun : ∀ amounts' : List (U256 × UInt8), amounts'.Perm amounts →
      ∃ s, sumAmounts zero amounts' = .ok (.ok s) ∧ IsFloat s ∧
        s.val = (((amounts.map (unitsOf decimals)).sum : ℕ) : ℚ) / (10 : ℚ) ^ decimals.toNat := by
    intro amounts' hperm
    have hsum := (hperm.map (unitsOf decimals)).sum_eq
    have hmeets := meets_sumAmounts decimals amounts' zero 0 isFloat_zero (by simp)
      (fun a ha => hdecimals a (hperm.mem_iff.1 ha)) (by rwa [Nat.zero_add, hsum])
    rw [Nat.zero_add, hsum] at hmeets
    rcases hmeets.returns with ⟨_, hr, s, rfl, hs, hval⟩
    exact ⟨s, hr, hs, hval⟩
  rcases hrun amounts (List.Perm.refl amounts) with ⟨s, -, hs, hval⟩
  have hlt : (amounts.map (unitsOf decimals)).sum < 2 ^ 256 := by
    have hmax : int224Max < 2 ^ 256 := by decide
    exact_mod_cast hfit.trans_lt hmax
  have hpow : (10 : ℚ) ^ decimals.toNat ≠ 0 := by positivity
  -- Whatever Float has the value of the total is written as the total.
  have hwritten : ∀ s : Dec, IsFloat s →
      s.val = (((amounts.map (unitsOf decimals)).sum : ℕ) : ℚ) / (10 : ℚ) ^ decimals.toNat →
      toFixedDecimalLossless s decimals = .ok (.ok ⟨_, hlt⟩) := by
    intro s hs hval
    rcases (meets_toFixedDecimalLossy hs decimals).returns with ⟨r, hr, hwrites⟩
    rw [hval, div_mul_cancel₀ _ hpow] at hwrites
    have hok := eq_ok_of_writesFixed_natCast (w := ⟨_, hlt⟩) hwrites
    rw [toFixedDecimalLossless, hr, hok]
    rfl
  refine ⟨s, ⟨_, hlt⟩, rfl, hwritten s hs hval, ?_⟩
  intro amounts' hperm
  rcases hrun amounts' hperm with ⟨s', hr', hs', hval'⟩
  exact ⟨s', hr', ⟨hs, hs', hval.trans hval'.symm⟩, hwritten s' hs' hval'⟩

/-- A dime and a cent in six decimals. -/
theorem sums_of_amounts_exact_cents :
    ∃ (s : Dec) (total : U256),
      total.val = ([((1 : U256), (1 : UInt8)), (1, 2)].map (unitsOf 6)).sum ∧
      toFixedDecimalLossless s 6 = .ok (.ok total) ∧
      ∀ amounts', amounts'.Perm [((1 : U256), (1 : UInt8)), (1, 2)] →
        ∃ s', sumAmounts zero amounts' = .ok (.ok s') ∧ SameFloat s s' ∧
          toFixedDecimalLossless s' 6 = .ok (.ok total) :=
  sums_of_amounts_exact [(1, 1), (1, 2)] 6
    (List.forall_mem_cons.2 ⟨by decide, List.forall_mem_singleton.2 (by decide)⟩) (by decide)

end Reference
end RainFloat
