import RainFloat.Binding.ReferenceConcrete
import RainFloat.Binding.RoundTrip

/-!
# Normalize — literals read and written again

On a contract that passes the checks of the tests, what happens to a literal depends on the number
it denotes: a Float is read, every other number is refused for the reason that applies, and the text
written for the Float is the same for every literal of the number.

* `parse_readsAs`: reading decides whether a literal denotes a Float;
* `literals_normalize`: reading and writing again leads to one literal for each number.
-/

namespace RainFloat
namespace Binding

open Foundation Reference

/-! ## Reading -/

/-- The outcome of `parse_ref` for a literal denoting `q`, with the reason for a refusal. -/
def ParsesBy (q : ℚ) : ParseRef → Prop
  | .value v => IsFloat v ∧ v.val = q
  | .selector s =>
      (BeyondExtremes q ∧ s = "ExponentOverflow(int256,int256)") ∨
        (¬ BeyondExtremes q ∧ q ∉ Representable ∧ s = "ParseDecimalPrecisionLoss(uint256)")

theorem meets_parseRef_by {T : Panic → Prop} {l : Literal} (h : ReadSafe l) :
    Meets T (parseRef l.text) (ParsesBy (literalDec l).val) := by
  rw [parseRef, literalValue_of_readSafe h]
  refine (meets_pack (Or.inr h.2)).bind ?_
  intro p hp
  -- A literal is read only if packing it loses nothing.
  cases p with
  | value v lossless =>
      rcases hp with ⟨hin, _, hv, htrunc, hlossless⟩
      cases lossless with
      | true => exact ⟨hv, hlossless.1 rfl⟩
      | false =>
          refine Or.inr ⟨hin, ?_, rfl⟩
          intro hmem
          exact absurd (hlossless.2 (htrunc.eq_of_mem hmem)) (by simp)
  | underflow =>
      rcases hp with ⟨hin, hne, hlt⟩
      refine Or.inr ⟨hin, ?_, rfl⟩
      intro hmem
      exact absurd (smallest_le hmem hne) hlt.not_ge
  | overflow => exact Or.inl ⟨hp, rfl⟩

/-- The outcome of `Float::parse` for a literal denoting `q`. -/
def ReadsAs (q : ℚ) : Except FloatError Float → Prop
  | .ok f => (fromBytes f).val = q
  | .error e =>
      (BeyondExtremes q ∧ e = .decimalFloatSelector (.ok .exponentOverflow)) ∨
        (¬ BeyondExtremes q ∧ q ∉ Representable ∧
          e = .decimalFloatSelector (.ok .parseDecimalPrecisionLoss))

section Checked

variable {contract : FloatContract} {selector : String → UInt32}

theorem parse_readsAs (h : contract.PassesChecks selector) {l : Literal} (hl : ReadSafe l) :
    ReadsAs (literalDec l).val (Float.parse contract.toContract l.text) := by
  rcases h.parse l hl with ⟨w, hw, hcheck⟩
  have hspec := (meets_parseRef_by (T := fun _ => False) hl).of_eq_ok hw
  cases hgot : Float.parse contract.toContract l.text with
  | ok f =>
      rw [hgot] at hcheck
      cases w with
      | value v =>
          have hsame := sameFloat_of_eqValue (isFloat_fromBytes f) hspec.1 hcheck
          exact hsame.val.trans hspec.2
      | selector s => exact hcheck.elim
  | error e =>
      rw [hgot] at hcheck
      match e, w, hcheck with
      | .decimalFloatSelector (.ok s), .selector t, hs =>
          change selectorSignature s = t at hs
          subst hs
          -- The two signatures belong to one error each.
          rcases hspec with ⟨hbeyond, hs⟩ | ⟨hin, hmem, hs⟩
          · have hs' : s = .exponentOverflow := by
              cases s <;> first | rfl | exact absurd hs (by decide)
            exact Or.inl ⟨hbeyond, by rw [hs']⟩
          · have hs' : s = .parseDecimalPrecisionLoss := by
              cases s <;> first | rfl | exact absurd hs (by decide)
            exact Or.inr ⟨hin, hmem, by rw [hs']⟩

/-! ## Writing -/

theorem returned_of_ok {α : Type} {k : Contract} {result : CallResult α} {v : α}
    (h : executeCall k result (fun decoded => .ok decoded) = .ok v) :
    result = .returned (.ok v) := by
  match result, h with
  | .returned (.ok _), h => rw [Except.ok.inj h]

/-- Only a revert is decoded as an error of the contract. -/
theorem reverted_of_decimalFloat {α : Type} {k : Contract} {result : CallResult α}
    {e : DecimalFloatErrors}
    (h : executeCall k result (fun decoded => .ok decoded) = .error (.decimalFloat e)) :
    ∃ output, result = .reverted output := by
  match result, h with
  | .reverted output, _ => exact ⟨output, rfl⟩

/-- The texts a contract writes are those of the reference, whatever it reads. -/
theorem FloatContract.PassesChecks.followsReference (h : contract.PassesChecks selector) :
    ({ contract.toContract with parse := referenceContract.parse } : Contract).FollowsReference
    where
  format_scientific a t ht := by
    rcases h.formatScientific a with ⟨w, hw, hgot⟩
    rw [ht] at hw
    cases hw
    exact returned_of_ok hgot
  format_plain a t ht := by
    rcases h.formatPlain a with ⟨w, hw, hcheck⟩
    rw [ht] at hw
    cases hw
    rcases hcheck.of_ok with ⟨s, hgot, hsame⟩
    have hst : s = t := hsame
    rw [← hst]
    exact returned_of_ok hgot
  format_plain_reverts a e he := by
    rcases h.formatPlain a with ⟨w, hw, hcheck⟩
    rw [he] at hw
    cases hw
    rcases hcheck.of_error with ⟨e', hgot, hrevert⟩
    match e', hrevert with
    | .decimalFloat _, _ => exact reverted_of_decimalFloat hgot
  parse_value := referenceContract_followsReference.parse_value
  parse_selector := referenceContract_followsReference.parse_selector
  parse_malformed := referenceContract_followsReference.parse_malformed

theorem FloatContract.PassesChecks.exists_formatFloat (h : contract.PassesChecks selector)
    (x : Float) :
    ∃ n : Literal, formatFloat contract.toContract x = .ok n.text ∧ Renders (fromBytes x) n :=
  Binding.exists_formatFloat h.followsReference x

theorem FloatContract.PassesChecks.formatFloat_congr (h : contract.PassesChecks selector)
    {x y : Float} (hv : (fromBytes x).val = (fromBytes y).val) :
    formatFloat contract.toContract x = formatFloat contract.toContract y :=
  Binding.formatFloat_congr h.followsReference hv

/-! ## Normal forms -/

/-- A text is read, and what was read is written. -/
def normalize (contract : Contract) (t : Text) : Except FloatError Text := do
  let f ← Float.parse contract t
  formatFloat contract f

/-- A literal of a Float value is read as this value. -/
theorem exists_parse_of_mem (h : contract.PassesChecks selector) {l : Literal} (hl : ReadSafe l)
    (hmem : (literalDec l).val ∈ Representable) :
    ∃ f, Float.parse contract.toContract l.text = .ok f ∧
      (fromBytes f).val = (literalDec l).val := by
  have hread := parse_readsAs h hl
  cases hparse : Float.parse contract.toContract l.text with
  | ok f =>
      rw [hparse] at hread
      exact ⟨f, rfl, hread⟩
  | error e =>
      rw [hparse] at hread
      rcases hread with ⟨hbeyond, -⟩ | ⟨-, hnot, -⟩
      · exact absurd hbeyond (not_beyondExtremes_of_mem hmem)
      · exact absurd hmem hnot

/-- And written as a literal of it. -/
theorem exists_normalize (h : contract.PassesChecks selector) {l : Literal} (hl : ReadSafe l)
    (hmem : (literalDec l).val ∈ Representable) :
    ∃ (f : Float) (n : Literal), (fromBytes f).val = (literalDec l).val ∧
      normalize contract.toContract l.text = formatFloat contract.toContract f ∧
      formatFloat contract.toContract f = .ok n.text ∧ Renders (fromBytes f) n := by
  rcases exists_parse_of_mem h hl hmem with ⟨f, hparse, hval⟩
  rcases h.exists_formatFloat f with ⟨n, hn, hrender⟩
  refine ⟨f, n, hval, ?_, hn, hrender⟩
  rw [normalize, hparse]
  rfl

/-- A literal of any other number is refused, for the reason that applies. -/
theorem normalize_of_not_mem (h : contract.PassesChecks selector) {l : Literal} (hl : ReadSafe l)
    (hmem : (literalDec l).val ∉ Representable) :
    ∃ s, normalize contract.toContract l.text = .error (.decimalFloatSelector (.ok s)) ∧
      (BeyondExtremes (literalDec l).val ∧ s = .exponentOverflow ∨
        ¬ BeyondExtremes (literalDec l).val ∧ s = .parseDecimalPrecisionLoss) := by
  have hread := parse_readsAs h hl
  cases hparse : Float.parse contract.toContract l.text with
  | ok f =>
      rw [hparse] at hread
      have hval : (fromBytes f).val = (literalDec l).val := hread
      exact absurd (hval ▸ (isFloat_fromBytes f).val_mem) hmem
  | error e =>
      rw [hparse] at hread
      rcases hread with ⟨hbeyond, rfl⟩ | ⟨hin, -, rfl⟩
      · refine ⟨_, ?_, Or.inl ⟨hbeyond, rfl⟩⟩
        rw [normalize, hparse]
        rfl
      · refine ⟨_, ?_, Or.inr ⟨hin, rfl⟩⟩
        rw [normalize, hparse]
        rfl

end Checked

/-- Literals have normal forms.  Reading a literal and writing the Float leads, for the numbers that
are Floats, to one literal of the number, which leads to itself; two literals lead to the same one
exactly if they denote the same number.  All other literals are refused: as too large if their
number is still beyond the extreme Floats once it is cut off to the digits of a coefficient, and
otherwise for their precision. -/
theorem literals_normalize (contract : FloatContract) (selector : String → UInt32)
    (h : contract.PassesChecks selector) (l l' : Literal) (hl : ReadSafe l) (hl' : ReadSafe l') :
    ((literalDec l).val ∈ Representable →
      ∃ n : Literal, normalize contract.toContract l.text = .ok n.text ∧ ReadSafe n ∧
        (literalDec n).val = (literalDec l).val ∧
        normalize contract.toContract n.text = .ok n.text) ∧
    ((literalDec l).val ∈ Representable →
      (normalize contract.toContract l.text = normalize contract.toContract l'.text ↔
        (literalDec l).val = (literalDec l').val)) ∧
    (normalize contract.toContract l.text = .error (.decimalFloatSelector (.ok .exponentOverflow)) ↔
      BeyondExtremes (literalDec l).val) ∧
    (normalize contract.toContract l.text =
        .error (.decimalFloatSelector (.ok .parseDecimalPrecisionLoss)) ↔
      (literalDec l).val ∉ Representable ∧ ¬ BeyondExtremes (literalDec l).val) := by
  refine ⟨?_, ?_, ?_⟩
  · intro hmem
    rcases exists_normalize h hl hmem with ⟨f, n, hf, hnorm, hn, hrender⟩
    have hval : (literalDec n).val = (literalDec l).val := hrender.val.trans hf
    rcases exists_normalize h hrender.safe (hval ▸ hmem) with ⟨g, -, hg, hnorm', -, -⟩
    refine ⟨n, hnorm.trans hn, hrender.safe, hval, ?_⟩
    -- What was written is read as the same number, and so written the same.
    rw [hnorm', ← hn]
    exact h.formatFloat_congr (hg.trans (hval.trans hf.symm))
  · intro hmem
    rcases exists_normalize h hl hmem with ⟨f, n, hf, hnorm, hn, hrender⟩
    by_cases hmem' : (literalDec l').val ∈ Representable
    · rcases exists_normalize h hl' hmem' with ⟨f', n', hf', hnorm', hn', hrender'⟩
      constructor
      · intro heq
        rw [hnorm, hnorm', hn, hn'] at heq
        rw [← hf, ← hf']
        exact hrender.val_eq hrender' (Except.ok.inj heq)
      · intro heq
        rw [hnorm, hnorm']
        exact h.formatFloat_congr (hf.trans (heq.trans hf'.symm))
    · -- One is written and the other refused, and the numbers differ.
      rcases normalize_of_not_mem h hl' hmem' with ⟨s, hs, -⟩
      constructor
      · intro heq
        rw [hnorm, hn, hs] at heq
        cases heq
      · intro heq
        exact absurd (heq ▸ hmem) hmem'
  · by_cases hmem : (literalDec l).val ∈ Representable
    · rcases exists_normalize h hl hmem with ⟨f, n, -, hnorm, hn, -⟩
      rw [hnorm, hn]
      refine ⟨iff_of_false ?_ (not_beyondExtremes_of_mem hmem), iff_of_false ?_ ?_⟩
      · rintro ⟨⟩
      · rintro ⟨⟩
      · intro hnot
        exact hnot.1 hmem
    · rcases normalize_of_not_mem h hl hmem with ⟨s, hs, ⟨hbeyond, rfl⟩ | ⟨hin, rfl⟩⟩
      · rw [hs]
        refine ⟨iff_of_true rfl hbeyond, iff_of_false ?_ ?_⟩
        · rintro ⟨⟩
        · intro hnot
          exact hnot.2 hbeyond
      · rw [hs]
        refine ⟨iff_of_false ?_ hin, iff_of_true rfl ⟨hmem, hin⟩⟩
        rintro ⟨⟩

/-- `12E+2` -/
def twelveHundreds : Literal :=
  ⟨false, .ofNat 12, none, some ⟨true, .plus, .ofNat 2⟩⟩

/-- `1200` -/
def twelveHundred : Literal :=
  ⟨false, .ofNat 1200, none, none⟩

theorem literals_normalize_twelve_hundred :
    normalize (referenceConcrete refSelector).toContract twelveHundreds.text =
      normalize (referenceConcrete refSelector).toContract twelveHundred.text := by
  have hdec : literalDec twelveHundreds = ⟨12, 2⟩ := by decide +kernel
  have hdec' : literalDec twelveHundred = ⟨1200, 0⟩ := by decide +kernel
  have hx : IsFloat (⟨12, 2⟩ : Dec) := ⟨by decide, by decide, by decide⟩
  have hx' : IsFloat (⟨1200, 0⟩ : Dec) := ⟨by decide, by decide, by decide⟩
  have hsafe : ReadSafe twelveHundreds := ⟨by decide +kernel, hdec ▸ hx.isOperand.packSafe⟩
  have hsafe' : ReadSafe twelveHundred := ⟨by decide +kernel, hdec' ▸ hx'.isOperand.packSafe⟩
  have hval : (literalDec twelveHundreds).val = (literalDec twelveHundred).val := by
    rw [hdec, hdec']
    norm_num [Dec.val]
  exact ((literals_normalize (referenceConcrete refSelector) refSelector
    (referenceConcrete_passesChecks refSelector) twelveHundreds twelveHundred hsafe hsafe').2.1
    (hdec ▸ hx.val_mem)).2 hval

end Binding
end RainFloat
