import RainFloat.Binding.Normalize

/-!
# Display — Floats in logs and documents

Floats are shown as decimal text.  Where that fails the derived text of the bytes is shown instead,
so that showing never does.

* `debugFloat_eq_iff`, `debugOptionFloat_eq_iff`, `serializeOptionFloat_eq_iff`: each form tells
  values apart, and nothing else;
* `displays_faithful`: the statement for all of them.
-/

namespace RainFloat
namespace Binding

open Foundation Reference

/-! ## The forms -/

/-- The derived `Debug` text of a Float. -/
def derivedDebug (lib : HexLibrary) (value : Float) : Text :=
  "Float(".toList ++ (lib.encodePrefixed value ++ [')'])

/-- `format_float_with_fallback` -/
def formatFloatWithFallback (contract : Contract) (lib : HexLibrary) (value : Float) : Text :=
  match formatFloat contract value with
  | .ok text => text
  | .error _ => derivedDebug lib value

/-- `Debug` of `DebugFloat` -/
def debugFloat (contract : Contract) (lib : HexLibrary) (value : Float) : Text :=
  formatFloatWithFallback contract lib value

/-- `Debug` of `DebugOptionFloat` -/
def debugOptionFloat (contract : Contract) (lib : HexLibrary) : Option Float → Text
  | some value => "Some(".toList ++ (formatFloatWithFallback contract lib value ++ [')'])
  | none => "None".toList

/-- `Serialize` of `FloatDisplay` -/
def floatDisplay (contract : Contract) (value : Float) : Except SerdeError Json :=
  serializeFloatAsString contract value

/-! ## What they tell apart -/

section Checked

variable {contract : FloatContract} {selector : String → UInt32}

/-- The fallback is never needed. -/
theorem formatFloat_eq_debugFloat (h : contract.PassesChecks selector) (lib : HexLibrary)
    (x : Float) :
    formatFloat contract.toContract x = .ok (debugFloat contract.toContract lib x) := by
  rcases h.exists_formatFloat x with ⟨n, hn, -⟩
  rw [debugFloat, formatFloatWithFallback, hn]

theorem debugFloat_eq_iff (h : contract.PassesChecks selector) (lib : HexLibrary) (x y : Float) :
    debugFloat contract.toContract lib x = debugFloat contract.toContract lib y ↔
      (fromBytes y).val = (fromBytes x).val := by
  have hx := formatFloat_eq_debugFloat h lib x
  have hy := formatFloat_eq_debugFloat h lib y
  constructor
  · intro heq
    -- Each text is a literal of the value, and literals of one text have one value.
    rcases h.exists_formatFloat x with ⟨n, hn, hrender⟩
    rcases h.exists_formatFloat y with ⟨m, hm, hrender'⟩
    rw [hx] at hn
    rw [hy] at hm
    have htext : m.text = n.text := by
      rw [← Except.ok.inj hn, ← Except.ok.inj hm, heq]
    exact hrender'.val_eq hrender htext
  · intro hval
    rw [h.formatFloat_congr hval.symm, hy] at hx
    exact (Except.ok.inj hx).symm

/-- A form of an optional Float tells as much apart as its form of a Float does, if it has a form of
its own for the absent one. -/
theorem optional_eq_iff {β γ : Type} {form : Float → β} {absent : γ} (wrap : β → γ)
    (hform : ∀ x y, form x = form y ↔ (fromBytes y).val = (fromBytes x).val)
    (hwrap : ∀ s t, wrap s = wrap t → s = t) (habsent : ∀ s, wrap s ≠ absent)
    (a b : Option Float) :
    a.elim absent (fun x => wrap (form x)) = b.elim absent (fun x => wrap (form x)) ↔
      SameValue a b := by
  cases a with
  | none =>
      cases b with
      | none => exact iff_of_true rfl trivial
      | some y => exact iff_of_false (habsent _).symm not_false
  | some x =>
      cases b with
      | none => exact iff_of_false (habsent _) not_false
      | some y =>
          refine Iff.trans ⟨hwrap _ _, ?_⟩ (hform x y)
          intro heq
          exact congrArg wrap heq

theorem debugOptionFloat_eq_iff (h : contract.PassesChecks selector) (lib : HexLibrary)
    (a b : Option Float) :
    debugOptionFloat contract.toContract lib a = debugOptionFloat contract.toContract lib b ↔
      SameValue a b := by
  have hform : ∀ o : Option Float, debugOptionFloat contract.toContract lib o =
      o.elim "None".toList
        (fun x => "Some(".toList ++ (debugFloat contract.toContract lib x ++ [')'])) := by
    intro o
    cases o with
    | none => rfl
    | some x => rfl
  rw [hform a, hform b]
  refine optional_eq_iff (fun s => "Some(".toList ++ (s ++ [')'])) (debugFloat_eq_iff h lib)
    ?_ ?_ a b
  · intro s t heq
    exact List.append_cancel_right (List.append_cancel_left heq)
  · intro s heq
    simp at heq

theorem serializeOptionFloat_eq (h : contract.PassesChecks selector) (lib : HexLibrary)
    (o : Option Float) : serializeOptionFloat contract.toContract o =
      .ok (o.elim .null fun x => .string (debugFloat contract.toContract lib x)) := by
  cases o with
  | none => rfl
  | some x =>
      rw [serializeOptionFloat, serializeFloatAsString, formatFloat_eq_debugFloat h lib x]
      rfl

theorem serializeOptionFloat_eq_iff (h : contract.PassesChecks selector) (lib : HexLibrary)
    (a b : Option Float) :
    serializeOptionFloat contract.toContract a = serializeOptionFloat contract.toContract b ↔
      SameValue a b := by
  rw [serializeOptionFloat_eq h lib a, serializeOptionFloat_eq h lib b]
  refine Iff.trans ⟨Except.ok.inj, congrArg Except.ok⟩
    (optional_eq_iff Json.string (debugFloat_eq_iff h lib) ?_ ?_ a b)
  · intro s t heq
    cases heq
    rfl
  · rintro s ⟨⟩

end Checked

/-- Every form shows a Float by its value.  Writing the decimal text never fails, so nothing falls
back to the bytes, and the text is read back as the value; two Floats, or two optional ones, are
shown alike in a log or in a document exactly if they are of one value, and an absent one like no
other. -/
theorem displays_faithful (contract : FloatContract) (selector : String → UInt32)
    (h : contract.PassesChecks selector) (lib : HexLibrary) (x y : Float) (a b : Option Float) :
    formatFloat contract.toContract x = .ok (debugFloat contract.toContract lib x) ∧
    (∃ z, Float.parse contract.toContract (debugFloat contract.toContract lib x) = .ok z ∧
      (fromBytes z).val = (fromBytes x).val) ∧
    (debugFloat contract.toContract lib x = debugFloat contract.toContract lib y ↔
      (fromBytes y).val = (fromBytes x).val) ∧
    (floatDisplay contract.toContract x = floatDisplay contract.toContract y ↔
      (fromBytes y).val = (fromBytes x).val) ∧
    (debugOptionFloat contract.toContract lib a = debugOptionFloat contract.toContract lib b ↔
      SameValue a b) ∧
    (serializeOptionFloat contract.toContract a = serializeOptionFloat contract.toContract b ↔
      SameValue a b) := by
  refine ⟨formatFloat_eq_debugFloat h lib x, ?_, debugFloat_eq_iff h lib x y,
    serializeOptionFloat_eq_iff h lib (some x) (some y), debugOptionFloat_eq_iff h lib a b,
    serializeOptionFloat_eq_iff h lib a b⟩
  rcases h.exists_formatFloat x with ⟨n, hn, hrender⟩
  have hmem : (literalDec n).val ∈ Representable := hrender.val ▸ (isFloat_fromBytes x).val_mem
  -- What is written is a literal of a Float value, so it is read as that value.
  rcases exists_parse_of_mem h hrender.safe hmem with ⟨z, hz, hval⟩
  rw [formatFloat_eq_debugFloat h lib x] at hn
  rw [Except.ok.inj hn]
  exact ⟨z, hz, hval.trans hrender.val⟩

theorem displays_faithful_twelve_hundred :
    debugOptionFloat (referenceConcrete refSelector).toContract hexLibrary
        (some (layout ⟨1200, 0⟩)) =
      debugOptionFloat (referenceConcrete refSelector).toContract hexLibrary
        (some (layout ⟨12, 2⟩)) := by
  have hx : IsFloat (⟨1200, 0⟩ : Dec) := ⟨by decide, by decide, by decide⟩
  have hy : IsFloat (⟨12, 2⟩ : Dec) := ⟨by decide, by decide, by decide⟩
  have hval : (fromBytes (layout ⟨12, 2⟩)).val = (fromBytes (layout ⟨1200, 0⟩)).val := by
    rw [fromBytes_layout hx, fromBytes_layout hy]
    norm_num [Dec.val]
  exact (displays_faithful (referenceConcrete refSelector) refSelector
    (referenceConcrete_passesChecks refSelector) hexLibrary (layout ⟨1200, 0⟩) (layout ⟨12, 2⟩)
    (some (layout ⟨1200, 0⟩)) (some (layout ⟨12, 2⟩))).2.2.2.2.1.2 hval

end Binding
end RainFloat
