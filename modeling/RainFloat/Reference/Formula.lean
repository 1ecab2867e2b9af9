import RainFloat.Foundation.RelativeError
import RainFloat.Reference.Accuracy
import RainFloat.Reference.Comparison

/-!
# Formula — how far rounding carries through a computation

A caller chains the operations: prices times amounts, shares of totals, the least of several.  Over
nonnegative Floats the errors of the operations add up and do nothing worse, whatever the
computation.  Differences are no part of it: they cancel the digits that are right.

* `Rounds.sumsUp`: one rounding clear of the smallest Float;
* `Op.meets_run`: one operation on operands that are off already, one case per operation;
* `Formula.meets_evaluate`: a whole formula, by induction over it;
* `meets_formula`: its error, and when it can fail.
-/

namespace RainFloat
namespace Reference

open Foundation Dec

/-! ## Formulas -/

/-- The operations that take nonnegative Floats to nonnegative Floats. -/
inductive Op
  | add
  | mul
  | div
  | min
  | max
  deriving DecidableEq, Repr

namespace Op

def run : Op → Dec → Dec → Exec (Except RefError Dec)
  | add => Reference.add
  | mul => Reference.mul
  | div => Reference.div
  | min => fun a b => do pure (.ok (← minRef a b))
  | max => fun a b => do pure (.ok (← maxRef a b))

def exact : Op → ℚ → ℚ → ℚ
  | add => fun p q => p + q
  | mul => fun p q => p * q
  | div => fun p q => p / q
  | min => Min.min
  | max => Max.max

/-- The roundings in a result, given those in the operands. -/
def roundings : Op → ℕ → ℕ → ℕ
  | add => fun m n => Max.max m n + 1
  | mul => fun m n => m + n + 1
  | div => fun m n => m + n + 1
  | min => Max.max
  | max => Max.max

/-- A product or quotient is zero, or large enough to keep its digits. -/
def Clear : Op → ℚ → Prop
  | mul, q => q = 0 ∨ (10 : ℚ) ^ (i32Min + 67) ≤ q
  | div, q => q = 0 ∨ (10 : ℚ) ^ (i32Min + 67) ≤ q
  | _, _ => True

end Op

/-- Calls of the operations, each on the results of others. -/
inductive Formula (α : Type)
  | literal (x : α)
  | op (o : Op) (f g : Formula α)

/-- Both operands, and then the operation; the first failure is the result. -/
def chain (op : Dec → Dec → Exec (Except RefError Dec)) (m n : Exec (Except RefError Dec)) :
    Exec (Except RefError Dec) := do
  let r ← m
  match r with
  | .error e => pure (.error e)
  | .ok a => do
    let s ← n
    match s with
    | .error e => pure (.error e)
    | .ok b => op a b

namespace Formula

variable {α β : Type}

def map (φ : α → β) : Formula α → Formula β
  | literal x => literal (φ x)
  | op o f g => op o (f.map φ) (g.map φ)

def evaluate : Formula Dec → Exec (Except RefError Dec)
  | literal x => pure (.ok x)
  | op o f g => chain o.run f.evaluate g.evaluate

/-- The number a formula stands for. -/
def exact : Formula Dec → ℚ
  | literal x => x.val
  | op o f g => o.exact f.exact g.exact

/-- The roundings that add up on the way to the result. -/
def roundings : Formula α → ℕ
  | literal _ => 0
  | op o f g => o.roundings f.roundings g.roundings

def subformulas : Formula α → List (Formula α)
  | literal x => [literal x]
  | op o f g => op o f g :: (f.subformulas ++ g.subformulas)

/-- The literals are nonnegative Floats. -/
def Nonnegative : Formula Dec → Prop
  | literal x => IsFloat x ∧ 0 ≤ x.val
  | op _ f g => f.Nonnegative ∧ g.Nonnegative

/-- The products and quotients stay clear of the smallest Float. -/
def ClearOfMin : Formula Dec → Prop
  | literal _ => True
  | op o f g => f.ClearOfMin ∧ g.ClearOfMin ∧ o.Clear (o.exact f.exact g.exact)

/-- No divisor is zero. -/
def Defined (f : Formula Dec) : Prop :=
  ∀ g k, op .div g k ∈ f.subformulas → k.exact ≠ 0

theorem roundings_map (φ : α → β) (f : Formula α) : (f.map φ).roundings = f.roundings := by
  induction f with
  | literal x => rfl
  | op o f g ihf ihg => rw [map, roundings, roundings, ihf, ihg]

theorem map_eq_op {φ : α → β} {f : Formula α} {o : Op} {g k : Formula β}
    (h : f.map φ = op o g k) : ∃ g' k', f = op o g' k' ∧ g'.map φ = g ∧ k'.map φ = k := by
  cases f with
  | literal x => cases h
  | op o' g' k' =>
      cases h
      exact ⟨g', k', rfl, rfl, rfl⟩

theorem subformulas_map (φ : α → β) (f : Formula α) :
    (f.map φ).subformulas = f.subformulas.map (map φ) := by
  induction f with
  | literal x => rfl
  | op o f g ihf ihg =>
      rw [map, subformulas, subformulas, ihf, ihg, List.map_cons, List.map_append]
      rfl

end Formula

/-! ## One rounding -/

theorem isShare_keptShare : IsShare keptShare :=
  ⟨keptShare_pos, keptShare_le_one⟩

/-- Many roundings leave most of a number. -/
theorem one_sub_le_keptShare_pow (n : ℕ) : 1 - (n : ℚ) / 10 ^ 66 ≤ keptShare ^ n := by
  have hbernoulli := one_add_mul_le_pow (a := -(1 / 10 ^ 66 : ℚ)) (by norm_num) n
  calc
    1 - (n : ℚ) / 10 ^ 66 = 1 + (n : ℚ) * -(1 / 10 ^ 66) := by ring
    _ ≤ (1 + -(1 / 10 ^ 66)) ^ n := hbernoulli
    _ = keptShare ^ n := by rw [keptShare, sub_eq_add_neg]

theorem keptShare_pow_ge {n : ℕ} (h : n ≤ 10 ^ 65) : 9 / 10 ≤ keptShare ^ n := by
  have hn : (n : ℚ) ≤ 10 ^ 65 := by exact_mod_cast h
  have hkept := one_sub_le_keptShare_pow n
  have hsmall : (n : ℚ) / 10 ^ 66 ≤ 1 / 10 := by
    rw [div_le_div_iff₀ (by norm_num) (by norm_num)]
    linarith
  linarith

/-- Clear of the smallest Float, a rounding takes away one part in `10^66` at most. -/
theorem Rounds.sumsUp {q : ℚ} {r : Except RefError Dec} (h : Rounds q r)
    (hq : q = 0 ∨ (10 : ℚ) ^ (i32Min + 66) ≤ q) : SumsUp q keptShare r := by
  have hpos := ten_zpow_pos (i32Min + 66)
  have hq0 : 0 ≤ q := hq.elim Eq.ge fun hge => hpos.le.trans hge
  match r, h with
  | .ok v, h =>
      have hv0 := h.2.2.2.nonneg hq0
      have hclose : Close q v.val := by
        rcases h.accurate with ⟨hle, heq | hlt | hlt⟩
        · exact ⟨hle, Or.inl heq⟩
        · exact ⟨hle, Or.inr hlt⟩
        · refine ⟨hle, ?_⟩
          -- Less than the smallest Float is less than one part of what is clear of it.
          rcases hq with rfl | hge
          · exact Or.inl (truncatesTo_zero h.2.2.2)
          · right
            calc
              |q - v.val| * 10 ^ 66 < (10 : ℚ) ^ i32Min * 10 ^ 66 :=
                mul_lt_mul_of_pos_right hlt (by norm_num)
              _ = (10 : ℚ) ^ (i32Min + 66) := by rw [ten_zpow_add]; norm_cast
              _ ≤ |q| := hge.trans (le_abs_self q)
      exact ⟨h.2.2.1, hv0, h.2.2.2.le_self hq0, hclose.share_le hq0 hv0⟩
  | .error .exponentUnderflow, ⟨_, hne, hlt⟩ =>
      have hge := hq.resolve_left hne
      have hmin : (10 : ℚ) ^ i32Min ≤ (10 : ℚ) ^ (i32Min + 66) := ten_zpow_le.2 (by omega)
      exact absurd (hmin.trans (hge.trans (le_abs_self q))) hlt.not_ge
  | .error .exponentOverflow, hover => exact ⟨rfl, BeyondExtremes.max_lt hover hq0⟩

/-- The outcome of computing `q` with `n` roundings: a Float within their reach, or an overflow. -/
def Computes (q : ℚ) (n : ℕ) : Except RefError Dec → Prop
  | .ok v => IsFloat v ∧ Within keptShare n q v.val
  | .error .exponentOverflow => keptShare ^ n * maxPositive.val < q
  | .error _ => False

/-- One rounding more -/
theorem SumsUp.computes {q q' : ℚ} {n : ℕ} {r : Except RefError Dec} (h : SumsUp q' keptShare r)
    (hq : Within keptShare n q q') : Computes q (n + 1) r := by
  match r, h with
  | .ok v, ⟨hfloat, _, hle, hge⟩ =>
      exact ⟨hfloat, hq.trans isShare_keptShare
        (Within.of_rounding isShare_keptShare hq.right_nonneg hle hge)⟩
  | .error _, ⟨rfl, hover⟩ =>
      have hpow : 0 < keptShare ^ n := pow_pos keptShare_pos n
      -- An overflow of what was computed is one of the exact number, but for its roundings.
      calc
        keptShare ^ (n + 1) * maxPositive.val
            = keptShare * (keptShare ^ n * maxPositive.val) := by ring
        _ ≤ keptShare ^ n * maxPositive.val :=
            mul_le_of_le_one_left (mul_pos hpow maxPositive_val_pos).le keptShare_le_one
        _ < keptShare ^ n * q' := mul_lt_mul_of_pos_left hover hpow
        _ ≤ q := hq.le_left

/-- What is clear of the smallest Float stays nearly as clear when it is off. -/
theorem clear_of_within {q q' : ℚ} {n : ℕ} (hn : n ≤ 10 ^ 65)
    (h : q = 0 ∨ (10 : ℚ) ^ (i32Min + 67) ≤ q) (hq : Within keptShare n q q') :
    q' = 0 ∨ (10 : ℚ) ^ (i32Min + 66) ≤ q' := by
  refine h.imp (hq.eq_zero_iff isShare_keptShare).1 ?_
  intro hge
  have hten : (10 : ℚ) ^ (i32Min + 67) = 10 * (10 : ℚ) ^ (i32Min + 66) := by
    rw [show i32Min + 67 = 1 + (i32Min + 66) by ring, ten_zpow_add, zpow_one]
  have hpos := ten_zpow_pos (i32Min + 66)
  calc
    (10 : ℚ) ^ (i32Min + 66) ≤ 9 / 10 * (10 : ℚ) ^ (i32Min + 67) := by
      rw [hten]
      linarith
    _ ≤ keptShare ^ n * q :=
      mul_le_mul (keptShare_pow_ge hn) hge (ten_zpow_pos _).le (pow_pos keptShare_pos n).le
    _ ≤ q' := hq.le_right

/-! ## One operation -/

/-- The outcome of an operation whose exact result is `q`, defined but for a zero divisor. -/
def Op.Yields (o : Op) (q divisor : ℚ) (n : ℕ) : Except RefError Dec → Prop
  | .error .divisionByZero => o = div ∧ divisor = 0
  | r => (o = div → divisor ≠ 0) ∧ Computes q n r

theorem Op.yields_of_computes {o : Op} {q divisor : ℚ} {n : ℕ} {r : Except RefError Dec}
    (hdiv : o = div → divisor ≠ 0) (h : Computes q n r) : o.Yields q divisor n r := by
  match r, h with
  | .ok v, h => exact ⟨hdiv, h⟩
  | .error .exponentOverflow, h => exact ⟨hdiv, h⟩

section Specs

variable {a b : Dec} {p q : ℚ} {m n : ℕ}

theorem val_minRef (a b : Dec) : (pickBelow val a b).val = min a.val b.val := by
  unfold pickBelow
  split
  · rename_i hlt
    rw [min_eq_left hlt.le]
  · rename_i hge
    rw [min_eq_right (not_lt.1 hge)]

theorem val_maxRef (a b : Dec) :
    (pickBelow (fun x => OrderDual.toDual x.val) a b).val = max a.val b.val := by
  unfold pickBelow
  split
  · rename_i hlt
    rw [max_eq_left (OrderDual.toDual_lt_toDual.1 hlt).le]
  · rename_i hge
    rw [max_eq_right (not_lt.1 (mt OrderDual.toDual_lt_toDual.2 hge))]

/-- An operation on operands that are off already -/
theorem Op.meets_run (o : Op) (ha : IsFloat a) (hb : IsFloat b) (hp : Within keptShare m p a.val)
    (hq : Within keptShare n q b.val) (hclear : o.Clear (o.exact p q))
    (hn : o.roundings m n ≤ 10 ^ 65) :
    Meets (fun _ => False) (o.run a b) (o.Yields (o.exact p q) q (o.roundings m n)) := by
  have hκ := isShare_keptShare
  cases o with
  | add =>
      -- Sums keep their digits however small they are.
      have hsum := hp.add hκ hq
      refine (meets_add_sumsUp ha hb hp.right_nonneg hq.right_nonneg).mono ?_
      intro r hr
      exact Op.yields_of_computes Op.noConfusion (hr.computes hsum)
  | mul =>
      have hproduct := hp.mul hκ hq
      have hclear' := clear_of_within ((Nat.le_succ _).trans hn) hclear hproduct
      refine (meets_mul ha hb).mono ?_
      intro r hr
      exact Op.yields_of_computes Op.noConfusion ((hr.sumsUp hclear').computes hproduct)
  | div =>
      -- Roundings neither make a divisor zero nor save one from it.
      have hzero : q = 0 ↔ b.c = 0 := (hq.eq_zero_iff hκ).trans val_eq_zero_iff
      by_cases hb0 : b.c = 0
      · rw [Op.run, div_zero_divisor a hb0, Meets.ok_iff]
        exact ⟨rfl, hzero.2 hb0⟩
      · have hquotient := hp.div hκ hq
        have hclear' := clear_of_within ((Nat.le_succ _).trans hn) hclear hquotient
        refine (meets_div ha hb hb0).mono ?_
        intro r hr
        exact Op.yields_of_computes (fun _ => mt hzero.1 hb0)
          ((hr.sumsUp hclear').computes hquotient)
  | min =>
      refine (meets_minRef ha hb).bind_eq ?_
      rw [Meets.pure_iff]
      exact ⟨Op.noConfusion, isFloat_pickBelow val ha hb, (val_minRef a b) ▸ hp.min hκ hq⟩
  | max =>
      refine (meets_maxRef ha hb).bind_eq ?_
      rw [Meets.pure_iff]
      exact ⟨Op.noConfusion, isFloat_pickBelow _ ha hb, (val_maxRef a b) ▸ hp.max hκ hq⟩

end Specs

/-! ## Whole formulas -/

namespace Formula

variable {α : Type}

/-- What a formula may evaluate to: a Float as close to the exact number as the roundings leave it,
an overflow where a part of the formula comes close to the largest Float, or a division by zero
where a divisor is zero. -/
def Evaluates (f : Formula Dec) : Except RefError Dec → Prop
  | .ok v => f.Defined ∧ IsFloat v ∧ Within keptShare f.roundings f.exact v.val
  | .error .exponentOverflow =>
      ∃ g ∈ f.subformulas, keptShare ^ g.roundings * maxPositive.val < g.exact
  | .error .divisionByZero => ∃ g h, op .div g h ∈ f.subformulas ∧ h.exact = 0
  | .error _ => False

theorem self_mem (f : Formula α) : f ∈ f.subformulas := by
  cases f with
  | literal x => exact List.mem_singleton_self _
  | op o f g => exact List.mem_cons_self

/-- A part that fails makes the whole fail for the same reason. -/
theorem Evaluates.error {f g : Formula Dec} {e : RefError} (h : f.Evaluates (.error e))
    (hsub : f.subformulas ⊆ g.subformulas) : g.Evaluates (.error e) := by
  cases e with
  | exponentOverflow =>
      rcases h with ⟨k, hk, hover⟩
      exact ⟨k, hsub hk, hover⟩
  | divisionByZero =>
      rcases h with ⟨k, l, hk, hzero⟩
      exact ⟨k, l, hsub hk, hzero⟩
  | _ => exact h.elim

/-- The last operation of a formula -/
theorem evaluates_of_yields {o : Op} {f g : Formula Dec} {r : Except RefError Dec}
    (hf : f.Defined) (hg : g.Defined)
    (h : o.Yields (o.exact f.exact g.exact) g.exact (o.roundings f.roundings g.roundings) r) :
    (op o f g).Evaluates r := by
  match r, h with
  | .ok v, ⟨hdiv, hfloat, hwithin⟩ =>
      refine ⟨?_, hfloat, hwithin⟩
      intro k l hmem
      -- A divisor in the formula is the one of its last operation, or one in an operand.
      rcases List.mem_cons.1 hmem with heq | hmem
      · cases heq
        exact hdiv rfl
      · rcases List.mem_append.1 hmem with hmem | hmem
        · exact hf k l hmem
        · exact hg k l hmem
  | .error .exponentOverflow, h => exact ⟨op o f g, self_mem _, h.2⟩
  | .error .divisionByZero, h =>
      rcases h with ⟨rfl, hzero⟩
      exact ⟨f, g, self_mem _, hzero⟩

theorem roundings_le (o : Op) (f g : Formula α) :
    f.roundings ≤ (op o f g).roundings ∧ g.roundings ≤ (op o f g).roundings := by
  cases o <;> simp only [roundings, Op.roundings] <;> omega

/-- A part is rounded no more often than the whole. -/
theorem roundings_le_of_mem {f g : Formula α} (h : g ∈ f.subformulas) :
    g.roundings ≤ f.roundings := by
  induction f with
  | literal x => rw [List.mem_singleton.1 h]
  | op o f k ihf ihk =>
      rcases List.mem_cons.1 h with rfl | h
      · exact le_rfl
      · rcases List.mem_append.1 h with h | h
        · exact (ihf h).trans (roundings_le o f k).1
        · exact (ihk h).trans (roundings_le o f k).2

/-- A whole formula -/
theorem meets_evaluate {f : Formula Dec} (h : f.Nonnegative) (hclear : f.ClearOfMin)
    (hn : f.roundings ≤ 10 ^ 65) : Meets (fun _ => False) f.evaluate f.Evaluates := by
  induction f with
  | literal x =>
      refine ⟨?_, h.1, Within.refl keptShare h.2⟩
      intro k l hmem
      cases List.mem_singleton.1 hmem
  | op o f g ihf ihg =>
      rcases h with ⟨hf, hg⟩
      rcases hclear with ⟨hclearf, hclearg, hclear⟩
      rcases roundings_le o f g with ⟨hlef, hleg⟩
      -- The operands one after the other, and then the operation on their outcomes.
      refine (ihf hf hclearf (hlef.trans hn)).bind ?_
      intro r hr
      cases r with
      | error e =>
          exact hr.error fun k hk => List.mem_cons_of_mem _ (List.mem_append_left _ hk)
      | ok a =>
          refine (ihg hg hclearg (hleg.trans hn)).bind ?_
          intro s hs
          cases s with
          | error e =>
              exact hs.error fun k hk => List.mem_cons_of_mem _ (List.mem_append_right _ hk)
          | ok b =>
              refine (o.meets_run hr.2.1 hs.2.1 hr.2.2 hs.2.2 hclear hn).mono ?_
              intro r' hr'
              exact evaluates_of_yields hr.1 hs.1 hr'

end Formula

/-- What a formula over nonnegative Floats may come to: a Float that is off by at most two parts in
`10^66` for each rounding on the way, a division by zero where a divisor is exactly zero, or an
overflow where a part exceeds half the largest Float. -/
def Formula.ComesTo (f : Formula Dec) : Except RefError Dec → Prop
  | .ok v => f.Defined ∧ IsFloat v ∧ 0 ≤ v.val ∧ (f.exact = 0 ↔ v.val = 0) ∧
      |f.exact - v.val| * 10 ^ 66 ≤ 2 * f.roundings * f.exact
  | .error .divisionByZero => ∃ g k, .op .div g k ∈ f.subformulas ∧ k.exact = 0
  | .error .exponentOverflow => ∃ g ∈ f.subformulas, maxPositive.val / 2 < g.exact
  | .error _ => False

/-- The operations, chained in any way. -/
theorem meets_formula {f : Formula Dec} (h : f.Nonnegative) (hclear : f.ClearOfMin)
    (hn : f.roundings ≤ 10 ^ 65) : Meets (fun _ => False) f.evaluate f.ComesTo := by
  refine (Formula.meets_evaluate h hclear hn).mono ?_
  intro r hr
  match r, hr with
  | .ok v, ⟨hdefined, hfloat, hwithin⟩ =>
      have hbound : |f.exact - v.val| ≤ 2 * ((f.roundings : ℚ) / 10 ^ 66) * f.exact := by
        have hsmall : (f.roundings : ℚ) ≤ 10 ^ 65 := by exact_mod_cast hn
        refine hwithin.abs_sub_le (by positivity) (one_sub_le_keptShare_pow _) ?_
        rw [← mul_div_assoc, div_le_one (by norm_num)]
        linarith
      refine ⟨hdefined, hfloat, hwithin.right_nonneg, hwithin.eq_zero_iff isShare_keptShare, ?_⟩
      calc
        |f.exact - v.val| * 10 ^ 66
            ≤ 2 * ((f.roundings : ℚ) / 10 ^ 66) * f.exact * 10 ^ 66 :=
              mul_le_mul_of_nonneg_right hbound (by norm_num)
        _ = 2 * f.roundings * f.exact := by
              field_simp
  | .error .divisionByZero, hzero => exact hzero
  | .error .exponentOverflow, ⟨g, hg, hover⟩ =>
      -- So few roundings leave more than half of the largest Float.
      have hkept := keptShare_pow_ge ((Formula.roundings_le_of_mem hg).trans hn)
      refine ⟨g, hg, lt_of_le_of_lt ?_ hover⟩
      rw [div_eq_inv_mul]
      exact mul_le_mul_of_nonneg_right (by linarith) maxPositive_val_pos.le

end Reference
end RainFloat
