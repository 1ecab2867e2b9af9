import Mathlib.Order.WithBot
import RainFloat.Foundation.TruncationOrder
import RainFloat.Reference.Congruence

/-!
# Order — larger operands give larger results

Rounding towards zero is monotone, and so are the operations that round a monotone function once.
To compare outcomes that are errors, `place` puts them on the extended number line: an overflow
beyond all Floats on the side of the exact result, an underflow at zero.

* `Rounds.place_mono`: larger numbers round to larger outcomes;
* `operations_monotone`: sums, differences, products and quotients.
-/

namespace RainFloat
namespace Reference

open Foundation Dec

/-! ## Outcomes on the extended line -/

/-- Where the outcome of rounding `q` lies. -/
def place (q : ℚ) : Except RefError Dec → WithBot (WithTop ℚ)
  | .ok v => ((v.val : WithTop ℚ) : WithBot (WithTop ℚ))
  | .error .exponentOverflow => if q < 0 then ⊥ else ((⊤ : WithTop ℚ) : WithBot (WithTop ℚ))
  | .error _ => (((0 : ℚ) : WithTop ℚ) : WithBot (WithTop ℚ))

theorem zero_mem_representable : (0 : ℚ) ∈ Representable :=
  val_zero ▸ isFloat_zero.val_mem

/-- Below the smallest Float, truncation gives zero. -/
theorem truncatesTo_zero_of_lt {q : ℚ} (h : |q| < (10 : ℚ) ^ i32Min) :
    TruncatesTo Representable q 0 := by
  refine ⟨zero_mem_representable, Set.left_mem_uIcc, fun z hz hzq => ?_⟩
  -- Any other element is at least as large as the smallest Float.
  by_cases hz0 : z = 0
  · rw [hz0]
  · exact absurd ((smallest_le hz hz0).trans (abs_le_of_mem_uIcc_zero hzq)) h.not_ge

/-- Within reach, the place of an outcome is the truncation. -/
theorem Rounds.exists_place {q : ℚ} {r : Except RefError Dec} (h : Rounds q r)
    (hq : ¬ BeyondExtremes q) :
    ∃ w : ℚ, TruncatesTo Representable q w ∧
      place q r = ((w : WithTop ℚ) : WithBot (WithTop ℚ)) := by
  match r, h with
  | .ok v, ⟨_, _, _, hv⟩ => exact ⟨v.val, hv, rfl⟩
  | .error .exponentUnderflow, ⟨_, _, hlt⟩ => exact ⟨0, truncatesTo_zero_of_lt hlt, rfl⟩
  | .error .exponentOverflow, hbeyond => exact absurd hbeyond hq

/-- Out of reach there is only one outcome. -/
theorem Rounds.eq_overflow {q : ℚ} {r : Except RefError Dec} (h : Rounds q r)
    (hq : BeyondExtremes q) : r = .error .exponentOverflow := by
  match r, h with
  | .ok _, ⟨hnot, _⟩ => exact absurd hq hnot
  | .error .exponentUnderflow, ⟨hnot, _⟩ => exact absurd hq hnot
  | .error .exponentOverflow, _ => rfl

/-- Beyond the largest Float, further out is out of reach as well. -/
theorem BeyondExtremes.of_le {q q' : ℚ} (h : BeyondExtremes q) (hq : 0 ≤ q) (hle : q ≤ q') :
    BeyondExtremes q' := by
  rcases h with ⟨u, hu, hout⟩
  rcases exists_truncatesTo_anyExponent q' with ⟨u', hu'⟩
  refine ⟨u', hu', Or.inl ?_⟩
  rcases hout with hlt | hlt
  · exact hlt.trans_le (hu.mono hu' hle)
  · exact absurd (hu.nonneg hq) (hlt.trans minNegative_val_neg).not_ge

theorem BeyondExtremes.of_ge {q q' : ℚ} (h : BeyondExtremes q') (hq : q' < 0) (hle : q ≤ q') :
    BeyondExtremes q := by
  rcases h with ⟨u', hu', hout⟩
  rcases exists_truncatesTo_anyExponent q with ⟨u, hu⟩
  refine ⟨u, hu, Or.inr ?_⟩
  rcases hout with hlt | hlt
  · exact absurd (hu'.nonpos hq.le) (maxPositive_val_pos.trans hlt).not_ge
  · exact (hu.mono hu' hle).trans_lt hlt

/-- Larger numbers round to larger outcomes. -/
theorem Rounds.place_mono {q q' : ℚ} {r r' : Except RefError Dec} (h : Rounds q r)
    (h' : Rounds q' r') (hle : q ≤ q') : place q r ≤ place q' r' := by
  -- An overflow lies beyond everything on its side; otherwise both are truncations.
  by_cases hq : BeyondExtremes q
  · rw [h.eq_overflow hq, place]
    split
    · exact bot_le
    · rename_i hneg
      rw [not_lt] at hneg
      rw [h'.eq_overflow (hq.of_le hneg hle), place, if_neg (hneg.trans hle).not_gt]
  by_cases hq' : BeyondExtremes q'
  · rw [h'.eq_overflow hq', place]
    split
    · rename_i hneg
      exact absurd (hq'.of_ge hneg hle) hq
    · rcases h.exists_place hq with ⟨w, -, hw⟩
      rw [hw, WithBot.coe_le_coe]
      exact le_top
  · rcases h.exists_place hq with ⟨w, hw, hplace⟩
    rcases h'.exists_place hq' with ⟨w', hw', hplace'⟩
    rw [hplace, hplace', WithBot.coe_le_coe, WithTop.coe_le_coe]
    exact hw.mono hw' hle

/-! ## The operations -/

/-- Two runs return, with outcomes in order, where they round `q` and `q'`. -/
theorem exists_outcomes_le {m m' : Exec (Except RefError Dec)} {q q' : ℚ}
    (h : Meets (fun _ => False) m (Rounds q)) (h' : Meets (fun _ => False) m' (Rounds q'))
    (hle : q ≤ q') :
    ∃ r r', m = .ok r ∧ m' = .ok r' ∧ place q r ≤ place q' r' := by
  rcases h.returns with ⟨r, hr, hround⟩
  rcases h'.returns with ⟨r', hr', hround'⟩
  exact ⟨r, r', hr, hr', hround.place_mono hround' hle⟩

/-- The operations keep the order of their operands, errors included: sums of larger terms,
differences from which less is taken away, products of larger nonnegative factors and quotients of
larger numerators by positive denominators are no smaller.  A smaller denominator takes quotients
further from zero, and so further up from a nonnegative numerator; a larger one takes them closer to
zero, and so further up from a nonpositive one. -/
theorem operations_monotone (a a' b b' : Dec) (ha : IsFloat a) (ha' : IsFloat a') (hb : IsFloat b)
    (hb' : IsFloat b') (haa : a.val ≤ a'.val) (hbb : b.val ≤ b'.val) :
    (∃ r r', add a b = .ok r ∧ add a' b' = .ok r' ∧
      place (a.val + b.val) r ≤ place (a'.val + b'.val) r') ∧
    (∃ r r', sub a b' = .ok r ∧ sub a' b = .ok r' ∧
      place (a.val - b'.val) r ≤ place (a'.val - b.val) r') ∧
    (0 ≤ a.val → 0 ≤ b.val → ∃ r r', mul a b = .ok r ∧ mul a' b' = .ok r' ∧
      place (a.val * b.val) r ≤ place (a'.val * b'.val) r') ∧
    (0 < b.val → 0 ≤ a'.val → ∃ r r', div a b' = .ok r ∧ div a' b = .ok r' ∧
      place (a.val / b'.val) r ≤ place (a'.val / b.val) r') ∧
    (0 < b.val → a.val ≤ 0 → ∃ r r', div a b = .ok r ∧ div a' b' = .ok r' ∧
      place (a.val / b.val) r ≤ place (a'.val / b'.val) r') := by
  refine ⟨?_, ?_, fun h0 h0' => ?_, fun h0 h0' => ?_, fun h0 h0' => ?_⟩
  · exact exists_outcomes_le (meets_add ha.isOperand hb.isOperand)
      (meets_add ha'.isOperand hb'.isOperand) (add_le_add haa hbb)
  · exact exists_outcomes_le (meets_sub ha hb') (meets_sub ha' hb) (sub_le_sub haa hbb)
  · exact exists_outcomes_le (meets_mul ha hb) (meets_mul ha' hb')
      (mul_le_mul haa hbb h0' (h0.trans haa))
  · have hb0 : b.c ≠ 0 := (val_pos_iff.1 h0).ne'
    have hb0' : b'.c ≠ 0 := (val_pos_iff.1 (h0.trans_le hbb)).ne'
    exact exists_outcomes_le (meets_div ha hb' hb0') (meets_div ha' hb hb0)
      (div_le_div₀ h0' haa h0 hbb)
  · have hb0 : b.c ≠ 0 := (val_pos_iff.1 h0).ne'
    have hb0' : b'.c ≠ 0 := (val_pos_iff.1 (h0.trans_le hbb)).ne'
    apply exists_outcomes_le (meets_div ha hb hb0) (meets_div ha' hb' hb0')
    -- The mirror image: the opposite numerators are in the opposite order.
    have hmirror := div_le_div₀ (neg_nonneg.2 h0') (neg_le_neg haa) h0 hbb
    rwa [neg_div, neg_div, neg_le_neg_iff] at hmirror

/-- A sum that overflows, and a smaller one; a debt over one, and a smaller debt over two. -/
theorem operations_monotone_max :
    (∃ r r', add maxPositive zero = .ok r ∧ add maxPositive maxPositive = .ok r' ∧
      place (maxPositive.val + zero.val) r ≤ place (maxPositive.val + maxPositive.val) r') ∧
    ∃ r r', div ⟨-1, 0⟩ ⟨1, 0⟩ = .ok r ∧ div ⟨-9, -1⟩ ⟨2, 0⟩ = .ok r' ∧
      place ((⟨-1, 0⟩ : Dec).val / (⟨1, 0⟩ : Dec).val) r ≤
        place ((⟨-9, -1⟩ : Dec).val / (⟨2, 0⟩ : Dec).val) r' := by
  have hmax : IsFloat maxPositive := ⟨by decide, by decide, by decide⟩
  have hle : zero.val ≤ maxPositive.val := by
    rw [val_zero]
    exact maxPositive_val_pos.le
  constructor
  · exact (operations_monotone _ _ _ _ hmax hmax isFloat_zero hmax le_rfl hle).1
  · exact (operations_monotone ⟨-1, 0⟩ ⟨-9, -1⟩ ⟨1, 0⟩ ⟨2, 0⟩ ⟨by decide, by decide, by decide⟩
      ⟨by decide, by decide, by decide⟩ ⟨by decide, by decide, by decide⟩
      ⟨by decide, by decide, by decide⟩ (by norm_num [val]) (by norm_num [val])).2.2.2.2
      (by norm_num [val]) (by norm_num [val])

end Reference
end RainFloat
