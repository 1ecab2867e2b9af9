import RainFloat.Binding.ReferenceConcrete
import RainFloat.Binding.Simulation
import RainFloat.Reference.Formula

/-!
# Formulas — computations with the binding

A caller chains the calls with `?`, so that the first error ends the computation.

* `passes_op`: a call on Floats that stand for those of the reference;
* `passes_formula`: so a whole formula comes to what it does on the reference;
* `formulas_accurate`: what it is worth.
-/

namespace RainFloat
namespace Binding

open Foundation Reference

/-! ## Formulas -/

def opCall (contract : FloatContract) : Op → Float → Float → Except FloatError Float
  | .add => Float.add contract
  | .mul => Float.mul contract
  | .div => Float.div contract
  | .min => Float.min contract
  | .max => Float.max contract

/-- The calls of a formula, from its first operand to its last. -/
def evaluate (contract : FloatContract) : Formula Float → Except FloatError Float
  | .literal x => .ok x
  | .op o f g => do
    let a ← evaluate contract f
    let b ← evaluate contract g
    opCall contract o a b

section Checked

variable {selector : String → UInt32} {contract : FloatContract}

/-- A call comes to a Float that stands for the expected one, or to the expected revert. -/
abbrev PassesAs (selector : String → UInt32) (got : Except FloatError Float)
    (want : Exec (Except RefError Dec)) : Prop :=
  Passes (CheckWith selector StandsFor) got want

/-- A run alike is expected just as well. -/
theorem PassesAs.trans {got : Except FloatError Float} {want want' : Exec (Except RefError Dec)}
    (h : PassesAs selector got want) (halike : RunAlike SameFloat want want') :
    PassesAs selector got want' := by
  rcases h with ⟨r, rfl, hcheck⟩
  rcases halike with ⟨w, w', hw, rfl, halike⟩
  cases hw
  refine ⟨w', rfl, ?_⟩
  match got, r, w', hcheck, halike with
  | .ok _, .ok _, .ok _, hcheck, halike => exact SameFloat.trans hcheck halike
  | .error _, .error _, .error _, hcheck, halike =>
      cases halike
      exact hcheck

theorem PassesAs.of_checkFloat {got : Except FloatError Float} {want : Exec (Except RefError Dec)}
    (h : Passes (CheckFloat selector) got want) (hwant : Returns want) :
    PassesAs selector got want := by
  rcases h with ⟨r, rfl, hcheck⟩
  refine ⟨r, rfl, ?_⟩
  match got, r, hcheck with
  | .ok g, .ok w, hsame =>
      exact sameFloat_of_eqValue (isFloat_fromBytes g) (hwant.of_eq_ok rfl w rfl) hsame
  | .error _, .error _, hrevert => exact hrevert

theorem PassesAs.of_hasBytes {got : Except FloatError Float} {want : Exec Dec}
    (h : Passes HasBytes got want) : PassesAs selector got (succeeds want) := by
  rcases h with ⟨w, rfl, hbytes⟩
  rcases standsFor_of_hasBytes hbytes with ⟨b, rfl, hb⟩
  exact ⟨.ok w, rfl, hb⟩

/-- One call -/
theorem passes_op (h : contract.PassesChecks selector) (o : Op) {a b : Float} {x y : Dec}
    (ha : StandsFor a x) (hb : StandsFor b y) :
    PassesAs selector (opCall contract o a b) (o.run x y) := by
  cases o with
  | add =>
      exact (PassesAs.of_checkFloat (h.add a b)
        (returns_binaryRef .add ha.left hb.left)).trans (runAlike_add ha hb)
  | mul =>
      exact (PassesAs.of_checkFloat (h.mul a b)
        (returns_binaryRef .mul ha.left hb.left)).trans (runAlike_mul ha hb)
  | div =>
      exact (PassesAs.of_checkFloat (h.div a b)
        (returns_binaryRef .div ha.left hb.left)).trans (runAlike_div ha hb)
  | min => exact (PassesAs.of_hasBytes (h.min a b)).trans (runAlike_pickOn .lt ha hb)
  | max => exact (PassesAs.of_hasBytes (h.max a b)).trans (runAlike_pickOn .gt ha hb)

/-- A whole formula -/
theorem passes_formula (h : contract.PassesChecks selector) (f : Formula Float) :
    PassesAs selector (evaluate contract f) (f.map fromBytes).evaluate := by
  induction f with
  | literal x => exact ⟨.ok (fromBytes x), rfl, SameFloat.refl (isFloat_fromBytes x)⟩
  | op o f g ihf ihg =>
      rcases ihf with ⟨r, hr, hcheckf⟩
      rcases ihg with ⟨s, hs, hcheckg⟩
      rw [evaluate, Formula.map, Formula.evaluate, chain, hr, hs]
      -- The first error ends both computations.
      cases r with
      | error e' =>
          rcases hcheckf.of_error with ⟨e, he, hrevert⟩
          rw [he]
          exact ⟨.error e', rfl, hrevert⟩
      | ok x =>
          rcases hcheckf.of_ok with ⟨a, ha, hax⟩
          cases s with
          | error e' =>
              rcases hcheckg.of_error with ⟨e, he, hrevert⟩
              rw [ha, he]
              exact ⟨.error e', rfl, hrevert⟩
          | ok y =>
              rcases hcheckg.of_ok with ⟨b, hb, hby⟩
              rw [ha, hb]
              exact passes_op h o hax hby

end Checked

/-! ## What they are worth -/

/-- The exact number of a formula over Floats -/
def exact (f : Formula Float) : ℚ :=
  (f.map fromBytes).exact

/-- What a computation with the binding comes to: a Float that is off by at most two parts in
`10^66` for each rounding on the way, and then no divisor was zero; a revert because a divisor is
exactly zero; or one because a part exceeds half the largest Float. -/
inductive ComesTo (selector : String → UInt32) (f : Formula Float) :
    Except FloatError Float → Prop
  | value {y : Float} (hdefined : ∀ g k, .op .div g k ∈ f.subformulas → exact k ≠ 0)
      (hnonneg : 0 ≤ (fromBytes y).val) (hzero : exact f = 0 ↔ (fromBytes y).val = 0)
      (hbound : |exact f - (fromBytes y).val| * 10 ^ 66 ≤ 2 * f.roundings * exact f) :
      ComesTo selector f (.ok y)
  | undefined {e : FloatError} {g k : Formula Float} (hrevert : IsRevert selector e .divisionByZero)
      (hmem : .op .div g k ∈ f.subformulas) (hzero : exact k = 0) : ComesTo selector f (.error e)
  | overflow {e : FloatError} {g : Formula Float} (hrevert : IsRevert selector e .exponentOverflow)
      (hmem : g ∈ f.subformulas) (hover : maxPositive.val / 2 < exact g) :
      ComesTo selector f (.error e)

/-- On a contract that passes the checks of the tests, calls chained in any way over nonnegative
Floats compute the exact number but for their roundings, and fail only where that is out of reach
or not defined. -/
theorem formulas_accurate {selector : String → UInt32} {contract : FloatContract}
    (h : contract.PassesChecks selector) (f : Formula Float)
    (hliterals : (f.map fromBytes).Nonnegative) (hclear : (f.map fromBytes).ClearOfMin)
    (hn : f.roundings ≤ 10 ^ 65) : ComesTo selector f (evaluate contract f) := by
  have hrun := meets_formula hliterals hclear (by rwa [Formula.roundings_map])
  rcases passes_formula h f with ⟨r, hr, hcheck⟩
  have hspec := hrun.of_eq_ok hr
  generalize evaluate contract f = got at hcheck
  match got, r, hcheck, hspec with
  | .ok y, .ok v, hsame, ⟨hdefined, _, h0, hzero, hbound⟩ =>
      have hval : (fromBytes y).val = v.val := hsame.val
      rw [Formula.roundings_map] at hbound
      rw [← hval] at h0 hzero hbound
      refine ComesTo.value ?_ h0 hzero hbound
      intro g k hmem
      -- Parts of the formula are parts of what it stands for, and the other way round.
      have hmem' := List.mem_map_of_mem (f := Formula.map fromBytes) hmem
      rw [← Formula.subformulas_map] at hmem'
      exact hdefined _ _ hmem'
  | .error e, .error .divisionByZero, hrevert, ⟨g, k, hmem, hzero⟩ =>
      rw [Formula.subformulas_map] at hmem
      rcases List.mem_map.1 hmem with ⟨f', hf', hmap⟩
      rcases Formula.map_eq_op hmap with ⟨g', k', rfl, -, rfl⟩
      exact ComesTo.undefined hrevert hf' hzero
  | .error e, .error .exponentOverflow, hrevert, ⟨g, hmem, hover⟩ =>
      rw [Formula.subformulas_map] at hmem
      rcases List.mem_map.1 hmem with ⟨g', hg', rfl⟩
      exact ComesTo.overflow hrevert hg' hover

/-- The larger of two thirds and a half, shared by three -/
def sharedByThree : Formula Float :=
  .op .div (.op .max (.op .div (.literal (layout ⟨2, 0⟩)) (.literal (layout ⟨3, 0⟩)))
    (.literal (layout ⟨5, -1⟩))) (.literal (layout ⟨3, 0⟩))

theorem formulas_accurate_sharedByThree : exact sharedByThree = 2 / 9 ∧
    ComesTo refSelector sharedByThree (evaluate (referenceConcrete refSelector) sharedByThree) := by
  have hfloat : ∀ c e : ℤ, fitsInt224 c = true → i32Min ≤ e → e ≤ i32Max → IsFloat ⟨c, e⟩ :=
    fun c e hc h1 h2 => ⟨hc, h1, h2⟩
  have h2 := hfloat 2 0 (by decide) (by decide) (by decide)
  have h3 := hfloat 3 0 (by decide) (by decide) (by decide)
  have h5 := hfloat 5 (-1) (by decide) (by decide) (by decide)
  have hmap : sharedByThree.map fromBytes =
      .op .div (.op .max (.op .div (.literal ⟨2, 0⟩) (.literal ⟨3, 0⟩)) (.literal ⟨5, -1⟩))
        (.literal ⟨3, 0⟩) := by
    simp only [sharedByThree, Formula.map, fromBytes_layout h2, fromBytes_layout h3,
      fromBytes_layout h5]
  have hclear : ∀ q : ℚ, 1 ≤ 10 * q → q = 0 ∨ (10 : ℚ) ^ (i32Min + 67) ≤ q := by
    intro q hq
    have hsmall : (10 : ℚ) ^ (i32Min + 67) ≤ (10 : ℚ) ^ (-1 : ℤ) := ten_zpow_le.2 (by decide)
    rw [zpow_neg_one] at hsmall
    right
    linarith
  have hliteral : ∀ {x : Dec}, IsFloat x → 0 ≤ x.c → (Formula.literal x).Nonnegative :=
    fun hx h0 => ⟨hx, val_nonneg_iff.2 h0⟩
  have hnonnegative : (sharedByThree.map fromBytes).Nonnegative := by
    rw [hmap]
    exact ⟨⟨⟨hliteral h2 (by decide), hliteral h3 (by decide)⟩, hliteral h5 (by decide)⟩,
      hliteral h3 (by decide)⟩
  have hclears : (sharedByThree.map fromBytes).ClearOfMin := by
    rw [hmap]
    exact ⟨⟨⟨trivial, trivial, hclear _ (by norm_num [Formula.exact, Op.exact, Dec.val])⟩, trivial,
      trivial⟩, trivial, hclear _ (by norm_num [Formula.exact, Op.exact, Dec.val])⟩
  have hroundings : sharedByThree.roundings ≤ 10 ^ 65 := by
    norm_num [sharedByThree, Formula.roundings, Op.roundings]
  have hcomes := formulas_accurate (referenceConcrete_passesChecks refSelector) sharedByThree
    hnonnegative hclears hroundings
  refine ⟨?_, hcomes⟩
  rw [exact, hmap]
  norm_num [Formula.exact, Op.exact, Dec.val]

end Binding
end RainFloat
