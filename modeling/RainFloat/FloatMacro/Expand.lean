import RainFloat.Binding.ContractLaws
import RainFloat.FloatMacro.NumericText
import RainFloat.FloatMacro.Tokens

/-!
# Expand — the source `float!` and `float_result!` expand to

An expansion is the text of the source that replaces the call.  A numeric literal becomes a constant
or a compile error, anything else becomes an expression that parses at run time.

* `expand_of_numeric`, `expand_eq_constant_iff`: when it is which;
* `isNumericLiteralStr_accepts_grammar`: the test accepts its grammar, and with it every decimal
  literal.
-/

namespace RainFloat
namespace FloatMacro

open Foundation Reference Binding

/-- The texts the compiler and the dependencies have for a token stream, for `Debug` of a string and
for `Display` of an error. -/
structure Compiler where
  streamText : List TokenTree → Text
  debugText : Text → Text
  errorText : FloatError → Text

/-! ## Sources -/

/-- `format!("{byte:#04x}")` -/
def byteToken (byte : UInt8) : Text :=
  '0' :: 'x' :: hexText [byte]

/-- The constant that has the bytes of a Float. -/
def constantSource (f : Binding.Float) : Text :=
  "::rain_math_float::Float::from_raw(::rain_math_float::B256::new([".toList ++
    (", ".toList.intercalate (f.bytes.map byteToken) ++ "]))".toList)

def okSource (floatExpr : Text) : Text :=
  "::core::result::Result::<::rain_math_float::Float, ::rain_math_float::FloatError>::Ok(".toList ++
    (floatExpr ++ ")".toList)

/-- The run-time fallback of `float!` -/
def floatFallback (compiler : Compiler) (exprStr : Text) : Text :=
  "match ::rain_math_float::Float::parse((".toList ++
    (exprStr ++ (").to_string()) \x7b Ok(value) => value, Err(error) => ".toList ++
      ("panic!(\"float!(\x7b\x7d) failed: \x7berror\x7d\", ".toList ++
        (compiler.debugText exprStr ++ "), \x7d".toList))))

/-- The run-time fallback of `float_result!` -/
def floatResultFallback (exprStr : Text) : Text :=
  "::rain_math_float::Float::parse((".toList ++ (exprStr ++ ").to_string())".toList)

/-- The `compile_error!` for a literal that is not parsed. -/
def compileErrorSource (compiler : Compiler) (literal callerMacroName : Text) (error : FloatError) :
    Text :=
  let message := callerMacroName ++ ("(".toList ++ (literal ++ (") failed: ".toList ++
    compiler.errorText error)))
  "compile_error!(".toList ++ (compiler.debugText message ++ ")".toList)

/-! ## Expansion -/

/-- The source of the constant, or of the `compile_error!`. -/
def compileTimeFloatSource (contract : Contract) (compiler : Compiler)
    (literal callerMacroName : Text) : Except Text Text :=
  match Binding.Float.parse contract literal with
  | .ok parsed => .ok (constantSource parsed)
  | .error error => .error (compileErrorSource compiler literal callerMacroName error)

/-- What the two forms differ in: their names in errors, what they put around a constant, and what
they fall back to. -/
structure Form where
  callerMacroName : Text
  wrap : Text → Text
  fallback : Text → Text

def floatForm (compiler : Compiler) : Form where
  callerMacroName := "float!".toList
  wrap := id
  fallback := floatFallback compiler

def floatResultForm : Form where
  callerMacroName := "float_result!".toList
  wrap := okSource
  fallback := floatResultFallback

/-- The body of both -/
def expand (contract : Contract) (compiler : Compiler) (form : Form) (tokens : List TokenTree) :
    Except SliceError Text := do
  let numeric ← isNumericLiteralStr (joined tokens)
  if numeric then
    match compileTimeFloatSource contract compiler (joined tokens) form.callerMacroName with
    | .ok source => pure (form.wrap source)
    | .error compileError => pure compileError
  else
    pure (form.fallback (compiler.streamText tokens))

def float (contract : Contract) (compiler : Compiler) (tokens : List TokenTree) :
    Except SliceError Text :=
  expand contract compiler (floatForm compiler) tokens

def floatResult (contract : Contract) (compiler : Compiler) (tokens : List TokenTree) :
    Except SliceError Text :=
  expand contract compiler floatResultForm tokens

/-! ## Telling the sources apart -/

/-- The first characters of a source tell whether it is a constant, an error or the fallback. -/
structure Form.Distinct (form : Form) (compiler : Compiler) : Prop where
  constant_ne_fallback : ∀ f s, form.wrap (constantSource f) ≠ form.fallback s
  error_ne_fallback : ∀ literal e s,
    compileErrorSource compiler literal form.callerMacroName e ≠ form.fallback s
  constant_ne_error : ∀ f literal e,
    form.wrap (constantSource f) ≠ compileErrorSource compiler literal form.callerMacroName e

theorem ne_of_getElem {s t : Text} (h : s[2]? ≠ t[2]?) : s ≠ t := by
  rintro rfl
  exact h rfl

section Sources

variable (compiler : Compiler) (f : Binding.Float) (s name : Text) (e : FloatError)

@[simp] theorem getElem_constantSource : (constantSource f)[2]? = some 'r' :=
  rfl

@[simp] theorem getElem_okSource : (okSource s)[2]? = some 'c' :=
  rfl

@[simp] theorem getElem_floatFallback : (floatFallback compiler s)[2]? = some 't' :=
  rfl

@[simp] theorem getElem_floatResultFallback : (floatResultFallback s)[2]? = some 'r' :=
  rfl

@[simp] theorem getElem_compileErrorSource :
    (compileErrorSource compiler s name e)[2]? = some 'm' :=
  rfl

theorem floatForm_distinct : (floatForm compiler).Distinct compiler where
  constant_ne_fallback f s :=
    ne_of_getElem (s := constantSource f) (t := floatFallback compiler s) (by simp)
  error_ne_fallback literal e s := ne_of_getElem (t := floatFallback compiler s) (by simp)
  constant_ne_error f literal e := ne_of_getElem (s := constantSource f) (by simp)

theorem floatResultForm_distinct : floatResultForm.Distinct compiler where
  constant_ne_fallback f s :=
    ne_of_getElem (s := okSource (constantSource f)) (t := floatResultFallback s) (by simp)
  error_ne_fallback literal e s := ne_of_getElem (t := floatResultFallback s) (by simp)
  constant_ne_error f literal e := ne_of_getElem (s := okSource (constantSource f)) (by simp)

end Sources

/-! ## The branches -/

section Branches

variable {contract : Contract} {compiler : Compiler} {form : Form} {tokens : List TokenTree}

theorem expand_of_not_numeric (h : isNumericLiteralStr (joined tokens) = .ok false) :
    expand contract compiler form tokens = .ok (form.fallback (compiler.streamText tokens)) := by
  rw [expand, h]
  rfl

theorem expand_of_parse_ok {f : Binding.Float}
    (h : isNumericLiteralStr (joined tokens) = .ok true)
    (hf : Binding.Float.parse contract (joined tokens) = .ok f) :
    expand contract compiler form tokens = .ok (form.wrap (constantSource f)) := by
  rw [expand, h]
  simp only [compileTimeFloatSource, hf]
  rfl

theorem expand_of_parse_error {e : FloatError}
    (h : isNumericLiteralStr (joined tokens) = .ok true)
    (he : Binding.Float.parse contract (joined tokens) = .error e) :
    expand contract compiler form tokens =
      .ok (compileErrorSource compiler (joined tokens) form.callerMacroName e) := by
  rw [expand, h]
  simp only [compileTimeFloatSource, he]
  rfl

/-- A text that passes the test is not left to the fallback, for whatever expression. -/
theorem expand_of_numeric (hform : form.Distinct compiler)
    (h : isNumericLiteralStr (joined tokens) = .ok true) :
    ∃ t, expand contract compiler form tokens = .ok t ∧ ∀ expr, t ≠ form.fallback expr := by
  cases hparse : Binding.Float.parse contract (joined tokens) with
  | ok f => exact ⟨_, expand_of_parse_ok h hparse, hform.constant_ne_fallback f⟩
  | error e => exact ⟨_, expand_of_parse_error h hparse, hform.error_ne_fallback _ e⟩

/-- A constant comes from a text that passes the test and is parsed. -/
theorem expand_eq_constant_iff (hform : form.Distinct compiler) :
    (∃ f, expand contract compiler form tokens = .ok (form.wrap (constantSource f))) ↔
      isNumericLiteralStr (joined tokens) = .ok true ∧
        ∃ f, Binding.Float.parse contract (joined tokens) = .ok f := by
  constructor
  · rintro ⟨f, hf⟩
    rcases isNumericLiteralStr_spec (joined tokens) with ⟨b, hb, -⟩
    cases b with
    | false =>
        rw [expand_of_not_numeric hb] at hf
        exact absurd (Except.ok.inj hf).symm (hform.constant_ne_fallback f _)
    | true =>
        cases hparse : Binding.Float.parse contract (joined tokens) with
        | ok g => exact ⟨hb, g, rfl⟩
        | error e =>
            rw [expand_of_parse_error hb hparse] at hf
            exact absurd (Except.ok.inj hf).symm (hform.constant_ne_error f _ e)
  · rintro ⟨h, f, hf⟩
    exact ⟨f, expand_of_parse_ok h hf⟩

end Branches

/-! ## The grammar -/

/-- The test returns on every text, and exactly the texts that are numeric once trimmed pass it.
Every decimal literal does, and is then not left to run time; what else passes is a decimal literal
but for a point with nothing on one side of it. -/
theorem isNumericLiteralStr_accepts_grammar (s : Text) :
    (∃ b, isNumericLiteralStr s = .ok b ∧ (b = true ↔ ∃ n : NumericText, n.text = trim s)) ∧
    (IsLiteral s → isNumericLiteralStr s = .ok true ∧
      ∀ (contract : Contract) (compiler : Compiler) (tokens : List TokenTree), joined tokens = s →
        (∃ t, float contract compiler tokens = .ok t ∧ ∀ expr, t ≠ floatFallback compiler expr) ∧
        (∃ t, floatResult contract compiler tokens = .ok t ∧
          ∀ expr, t ≠ floatResultFallback expr)) ∧
    (isNumericLiteralStr s = .ok true →
      IsLiteral (trim s) ∨ ∃ g : GappedLiteral, trim s = g.text) := by
  refine ⟨isNumericLiteralStr_spec s, ?_, ?_⟩
  · intro hs
    have hnumeric := isNumericLiteralStr_of_isLiteral hs
    refine ⟨hnumeric, ?_⟩
    rintro contract compiler tokens rfl
    exact ⟨expand_of_numeric (floatForm_distinct compiler) hnumeric,
      expand_of_numeric (floatResultForm_distinct compiler) hnumeric⟩
  · intro h
    rcases isNumericLiteralStr_eq_true_iff.1 h with ⟨n, hn⟩
    rw [← hn]
    exact n.isLiteral_or_gapped

end FloatMacro
end RainFloat
