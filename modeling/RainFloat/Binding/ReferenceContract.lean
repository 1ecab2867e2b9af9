import RainFloat.Binding.ContractLaws

/-!
# ReferenceContract — a contract that obeys the laws

`exactFloat` finds the Float of a value `c × 10^e`, for exponents of any size, and a contract that
parses with it and formats with the reference functions satisfies both descriptions of
`ContractLaws`.
-/

namespace RainFloat
namespace Binding

open Foundation Reference Dec

/-! ## The Float of a value -/

theorem tdiv_ten_ne_zero {c : ℤ} (hc : c ≠ 0) (h : c.tmod 10 = 0) : c.tdiv 10 ≠ 0 := by
  intro h0
  have hsplit := Int.tmod_add_mul_tdiv c 10
  omega

/-- A nonzero decimal without the trailing zeros of its coefficient. -/
def stripTens (c : ℤ) (hc : c ≠ 0) (e : ℤ) : Dec :=
  if h : c.tmod 10 = 0 then
    stripTens (c.tdiv 10) (tdiv_ten_ne_zero hc h) (e + 1)
  else
    ⟨c, e⟩
termination_by c.natAbs
decreasing_by
  rw [Int.natAbs_tdiv]
  exact Nat.div_lt_self (by omega) (by decide)

theorem stripTens_spec (c : ℤ) (hc : c ≠ 0) (e : ℤ) :
    ¬ (10 : ℤ) ∣ (stripTens c hc e).c ∧
      ∃ k : ℕ, c = (stripTens c hc e).c * pow10 k ∧ (stripTens c hc e).e = e + k := by
  induction c, hc, e using stripTens.induct with
  | case1 c hc e hmod ih =>
      rw [stripTens, dif_pos hmod]
      rcases ih with ⟨hdvd, k, hk, he⟩
      have hsplit := Int.tmod_add_mul_tdiv c 10
      rw [hmod, zero_add] at hsplit
      refine ⟨hdvd, k + 1, ?_, by rw [he]; push_cast; ring⟩
      calc c = 10 * c.tdiv 10 := hsplit.symm
        _ = 10 * (_ * pow10 k) := congrArg (10 * ·) hk
        _ = _ * pow10 (k + 1) := by rw [pow10, pow10, pow_succ]; ring
  | case2 c hc e hmod =>
      rw [stripTens, dif_neg hmod]
      refine ⟨?_, 0, by simp [pow10], by simp⟩
      rwa [← Int.dvd_iff_tmod_eq_zero] at hmod

theorem stripTens_val (c : ℤ) (hc : c ≠ 0) (e : ℤ) :
    (stripTens c hc e).val = (⟨c, e⟩ : Dec).val := by
  rcases (stripTens_spec c hc e).2 with ⟨k, hk, he⟩
  have halign := aligned_mul_zpow (x := stripTens c hc e) (e := e) (by omega)
  have hgap : ((stripTens c hc e).e - e).toNat = k := by omega
  rw [hgap, ← hk] at halign
  exact halign.symm

/-- The Float of the value `c × 10^e`.  Once the zeros are stripped, only an exponent past the
largest is left to lower. -/
def exactFloat (c e : ℤ) : Option Dec :=
  if hc : c = 0 then
    some zero
  else
    let n := stripTens c hc e
    let k := (n.e - i32Max).toNat
    if k ≤ 68 then
      if fitsInt224 (n.c * pow10 k) = true ∧ i32Min ≤ n.e then some ⟨n.c * pow10 k, n.e - k⟩
      else none
    else
      none

theorem exactFloat_some {c e : ℤ} {v : Dec} (h : exactFloat c e = some v) :
    IsFloat v ∧ v.val = (⟨c, e⟩ : Dec).val := by
  unfold exactFloat at h
  split at h
  · rename_i hc
    cases h
    exact ⟨isFloat_zero, by rw [val_zero, val_eq_zero_iff.2 hc]⟩
  · rename_i hc
    dsimp only at h
    split at h
    · split at h
      · rename_i hfit
        cases h
        have hmin : i32Min ≤ i32Max := by decide
        refine ⟨⟨hfit.1, ?_, ?_⟩, ?_⟩
        · have := hfit.2
          dsimp only
          omega
        · dsimp only
          omega
        · rw [← stripTens_val c hc e]
          have halign := aligned_mul_zpow (x := stripTens c hc e)
            (e := (stripTens c hc e).e - ((stripTens c hc e).e - i32Max).toNat) (by omega)
          rw [sub_sub_cancel, Int.toNat_natCast] at halign
          exact halign
      · cases h
    · cases h

/-- A multiple of a coefficient by a smaller power of ten is on the same side and no larger. -/
theorem fits_mul_pow10_of_le {c : ℤ} {k j : ℕ} (hkj : k ≤ j)
    (h : fitsInt224 (c * pow10 j) = true) : fitsInt224 (c * pow10 k) = true := by
  rw [fitsInt224_iff] at h ⊢
  have hle : pow10 k ≤ pow10 j := pow_le_pow_right₀ (by norm_num) hkj
  have hlo := int224Min_neg
  have hhi := int224Max_pos
  have hk := pow10_pos k
  rcases le_total 0 c with h0 | h0
  · constructor <;> nlinarith
  · constructor <;> nlinarith

theorem exactFloat_none {c e : ℤ} (h : exactFloat c e = none) :
    (⟨c, e⟩ : Dec).val ∉ Representable := by
  rintro ⟨m, g, hm, hg, hg', hval⟩
  unfold exactFloat at h
  split at h
  · cases h
  · rename_i hc
    have hm0 : m ≠ 0 := by
      rintro rfl
      rw [Int.cast_zero, zero_mul, val_eq_zero_iff] at hval
      exact hc hval
    -- The Float has the same stripped decimal.
    have hsame : stripTens m hm0 g = stripTens c hc e := by
      refine IsNormal.unique (Or.inr (stripTens_spec m hm0 g).1)
        (Or.inr (stripTens_spec c hc e).1) ?_
      rw [stripTens_val, stripTens_val, hval]
      rfl
    rcases (stripTens_spec m hm0 g).2 with ⟨j, hj, hje⟩
    have hndvd := (stripTens_spec c hc e).1
    rw [hsame] at hj hje
    dsimp only at h
    generalize stripTens c hc e = n at h hj hje hndvd
    have hkj : (n.e - i32Max).toNat ≤ j := by omega
    have hfit : fitsInt224 (n.c * pow10 (n.e - i32Max).toNat) = true :=
      fits_mul_pow10_of_le hkj (hj ▸ hm)
    have hn0 : n.c ≠ 0 := fun h0 => hndvd (h0 ▸ dvd_zero _)
    -- Lowering the exponent costs a digit each time, and an int224 has 68.
    have hk68 : (n.e - i32Max).toNat ≤ 68 := by
      have hdigits := digits_le_of_fits (fitsInt224_iff.1 hfit)
      have hlt : (n.e - i32Max).toNat < digits (n.c * pow10 (n.e - i32Max).toNat) := by
        apply lt_digits
        have h10 : (pow10 (n.e - i32Max).toNat).natAbs = 10 ^ (n.e - i32Max).toNat := by
          simp [pow10, Int.natAbs_pow]
        rw [Int.natAbs_mul, h10]
        exact Nat.le_mul_of_pos_left _ (Int.natAbs_pos.2 hn0)
      omega
    rw [if_pos hk68, if_pos ⟨hfit, by omega⟩] at h
    cases h

/-! ## The contract -/

/-- Parses the literals of Float values. -/
def parseExact (s : Text) : CallResult (UInt32 × B256) :=
  match scan s with
  | some l =>
    match exactFloat (literalDec l).c (literalDec l).e with
    | some v => .returned (.ok (0, layout v))
    | none => .returned (.ok (0x32b8b8be, layout zero))
  | none => .returned (.ok (0xad384e87, layout zero))

/-- Formats as the reference does. -/
def formatExact (a : B256) (scientific : Bool) : CallResult Text :=
  if scientific then
    match formatScientific (fromBytes a) with
    | .ok t => .returned (.ok t)
    | .error _ => .halted "unreachable".toList
  else
    match formatPlain (fromBytes a) with
    | .ok (.ok t) => .returned (.ok t)
    | .ok (.error _) => .reverted []
    | .error _ => .halted "unreachable".toList

def referenceContract : Contract where
  parse := parseExact
  format := formatExact
  decodeError _ := none

theorem referenceContract_parsesExactly : referenceContract.ParsesExactly where
  parse_exact l hmem := by
    cases hv : exactFloat (literalDec l).c (literalDec l).e with
    | none => exact absurd hmem (exactFloat_none hv)
    | some v =>
        rcases exactFloat_some hv with ⟨hfloat, hval⟩
        refine ⟨layout v, ?_, ?_⟩
        · change parseExact l.text = _
          simp only [parseExact, scan_text, hv]
        · rw [fromBytes_layout hfloat, hval]
  parse_inexact l hmem := by
    cases hv : exactFloat (literalDec l).c (literalDec l).e with
    | none =>
        refine ⟨0x32b8b8be, layout zero, by decide, ?_⟩
        change parseExact l.text = _
        simp only [parseExact, scan_text, hv]
    | some v =>
        rcases exactFloat_some hv with ⟨hfloat, hval⟩
        have hmem' := hfloat.val_mem
        rw [hval] at hmem'
        exact absurd hmem' hmem
  parse_malformed s hs := by
    refine ⟨0xad384e87, layout zero, by decide, ?_⟩
    have hscan : scan s = none := by
      rw [isLiteral_iff] at hs
      simpa using hs
    change parseExact s = _
    simp only [parseExact, hscan]

/-- A contract that parses exactly agrees with the reference wherever that returns. -/
theorem referenceContract_followsReference : referenceContract.FollowsReference where
  format_scientific a t h := by
    change formatExact a true = _
    simp only [formatExact, h, if_true]
  format_plain a t h := by
    change formatExact a false = _
    simp only [formatExact, h, Bool.false_eq_true, if_false]
  format_plain_reverts a e h := by
    refine ⟨[], ?_⟩
    change formatExact a false = _
    simp only [formatExact, h, Bool.false_eq_true, if_false]
  parse_value s v hs h := by
    rcases hs with ⟨l, rfl⟩
    -- Any stop is tolerated: the law only speaks of texts the reference returns on.
    have hparse := meets_parseRef_text (T := fun _ => True) (l := l) (Or.inl ⟨trivial, trivial⟩)
    rcases hparse.of_eq_ok h with ⟨hfloat, hval⟩
    rcases referenceContract_parsesExactly.parse_exact l (hval ▸ hfloat.val_mem) with ⟨b, hb, hbval⟩
    exact ⟨b, hb, hbval.trans hval.symm⟩
  parse_selector s signature hs h := by
    rcases hs with ⟨l, rfl⟩
    have hparse := meets_parseRef_text (T := fun _ => True) (l := l) (Or.inl ⟨trivial, trivial⟩)
    exact referenceContract_parsesExactly.parse_inexact l (hparse.of_eq_ok h).1
  parse_malformed := referenceContract_parsesExactly.parse_malformed

end Binding
end RainFloat
