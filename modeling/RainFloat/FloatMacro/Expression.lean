import RainFloat.FloatMacro.Expand

/-!
# Expression — the language an expansion is read in

An expansion is text, which the compiler reads again.  `Reads` has one rule for each construct of
the language that occurs there, and `Expr.eval` says what that construct does.  Both are about the
language only, whatever has written the text.

* `Reads.unique_append`: an expression is read in one way, and its text tells where it ends;
* `ReadsAs.unique`: and so is what stands in place of a macro call.
-/

namespace RainFloat
namespace FloatMacro

open Foundation Reference Binding

/-! ## Byte lists -/

/-- The two digits behind `0x`. -/
def readByte (high low : Char) : Option UInt8 :=
  match hexBytes [high, low] with
  | some [b] => some b
  | _ => none

/-- The elements of an array expression, and the text behind the last one. -/
def readByteList : Text → Option (List UInt8 × Text)
  | '0' :: 'x' :: high :: low :: ',' :: ' ' :: t => do
    let b ← readByte high low
    let (bytes, rest) ← readByteList t
    pure (b :: bytes, rest)
  | '0' :: 'x' :: high :: low :: t => do
    let b ← readByte high low
    pure ([b], t)
  | _ => none

/-- Behind the last element nothing is read but a comma. -/
theorem readByteList_append {s : Text} {bytes : List UInt8} {rest : Text}
    (h : readByteList s = some (bytes, [])) (hrest : ∀ t, rest ≠ ',' :: t) :
    readByteList (s ++ rest) = some (bytes, rest) := by
  fun_induction readByteList s generalizing bytes with
  | case1 high low t ih =>
      simp only [Option.bind_eq_bind, Option.bind_eq_some_iff, Option.pure_def, Option.some.injEq,
        Prod.mk.injEq, Prod.exists] at h
      rcases h with ⟨b, hb, bytes', rest', hlist, rfl, rfl⟩
      simp [readByteList, hb, ih hlist]
  | case2 high low t hcomma =>
      simp only [Option.bind_eq_bind, Option.bind_eq_some_iff, Option.pure_def, Option.some.injEq,
        Prod.mk.injEq] at h
      rcases h with ⟨b, hb, rfl, rfl⟩
      cases rest with
      | nil => simp [readByteList, hb]
      | cons c t =>
          have hc : c ≠ ',' := by
            rintro rfl
            exact hrest t rfl
          simp [readByteList, hb, hc]
  | case3 => cases h

/-! ## Expressions -/

/-- The expressions of an expansion.  `argument` is the text of the argument of the macro call, with
`to_string` called on what it denotes. -/
inductive Expr
  | value
  | error
  | argument (expr : Text)
  | constant (f : Binding.Float)
  | parse (text : Expr)
  | ok (value : Expr)
  | matchResult (result okArm errArm : Expr)
  | panic (template argument : Text)

/-- `Ok` with the types of a result and of its error. -/
def okPath : Text :=
  "::core::result::Result::<::rain_math_float::Float, ::rain_math_float::FloatError>::Ok".toList

/-- How they are spelled. -/
inductive Reads (compiler : Compiler) : Text → Expr → Prop
  | value : Reads compiler "value".toList .value
  | error : Reads compiler "error".toList .error
  | argument (tokens : List TokenTree) :
      Reads compiler ("(".toList ++ (compiler.streamText tokens ++ ").to_string()".toList))
        (.argument (compiler.streamText tokens))
  | constant {body : Text} {f : Binding.Float} (h : readByteList body = some (f.bytes, [])) :
      Reads compiler
        ("::rain_math_float::Float::from_raw(::rain_math_float::B256::new([".toList ++
          (body ++ "]))".toList))
        (.constant f)
  | parse {s : Text} {e : Expr} (h : Reads compiler s e) :
      Reads compiler ("::rain_math_float::Float::parse(".toList ++ (s ++ ")".toList)) (.parse e)
  | ok {s : Text} {e : Expr} (h : Reads compiler s e) :
      Reads compiler (okPath ++ ("(".toList ++ (s ++ ")".toList))) (.ok e)
  | matchResult {s t u : Text} {result okArm errArm : Expr} (h : Reads compiler s result)
      (hok : Reads compiler t okArm) (herr : Reads compiler u errArm) :
      Reads compiler
        ("match ".toList ++ (s ++ (" \x7b Ok(value) => ".toList ++
          (t ++ (", Err(error) => ".toList ++ (u ++ ", \x7d".toList))))))
        (.matchResult result okArm errArm)
  | panic (template argument : Text) :
      Reads compiler
        ("panic!(".toList ++ (compiler.debugText template ++ (", ".toList ++
          (compiler.debugText argument ++ ")".toList))))
        (.panic template argument)

/-- What stands in place of a macro call. -/
inductive Expansion
  | compileError (message : Text)
  | expr (e : Expr)

inductive ReadsAs (compiler : Compiler) : Text → Expansion → Prop
  | compileError (message : Text) :
      ReadsAs compiler ("compile_error!(".toList ++ (compiler.debugText message ++ ")".toList))
        (.compileError message)
  | expr {s : Text} {e : Expr} (h : Reads compiler s e) : ReadsAs compiler s (.expr e)

/-! ## One reading -/

/-- A character that stands for itself in a string literal. -/
def isPlain (c : Char) : Bool :=
  0x20 ≤ c.toNat && c.toNat ≤ 0x7e && !("\"\\".toList.contains c)

/-- What the texts of the compiler are relied on for.  A string literal ends at its closing quote
and denotes one string, which it shows as it is if nothing has to be escaped.  The delimiters in a
token stream are balanced, so a parenthesis in front of it is closed by the one behind it. -/
structure Compiler.Documented (compiler : Compiler) : Prop where
  debugText_closed : ∀ s t r r', compiler.debugText s ++ r = compiler.debugText t ++ r' →
    s = t ∧ r = r'
  debugText_plain : ∀ s, s.all isPlain = true →
    compiler.debugText s = "\"".toList ++ (s ++ "\"".toList)
  streamText_closed : ∀ ts us r r',
    compiler.streamText ts ++ ')' :: r = compiler.streamText us ++ ')' :: r' →
      compiler.streamText ts = compiler.streamText us ∧ r = r'

/-- The constructs, by what they start with. -/
inductive Construct
  | value
  | error
  | argument
  | constant
  | parse
  | ok
  | matchResult
  | panic

def Expr.construct : Expr → Construct
  | .value => .value
  | .error => .error
  | .argument _ => .argument
  | .constant _ => .constant
  | .parse _ => .parse
  | .ok _ => .ok
  | .matchResult _ _ _ => .matchResult
  | .panic _ _ => .panic

/-- The construct that a text starts with. -/
def leading : Text → Option Construct
  | 'v' :: _ => some .value
  | 'e' :: _ => some .error
  | '(' :: _ => some .argument
  | 'm' :: _ => some .matchResult
  | 'p' :: _ => some .panic
  | ':' :: ':' :: 'c' :: _ => some .ok
  | ':' :: ':' :: 'r' :: t => if t[23]? = some 'f' then some .constant else some .parse
  | _ => none

theorem ext_bytes {f g : Binding.Float} (h : f.bytes = g.bytes) : f = g := by
  cases f
  cases g
  cases h
  rfl

section Reads

variable {compiler : Compiler} {s s' : Text} {e e' : Expr}

theorem Reads.of_eq (h : Reads compiler s e) (heq : s' = s) : Reads compiler s' e := by
  rwa [heq]

theorem Reads.leading_eq (h : Reads compiler s e) (r : Text) :
    leading (s ++ r) = some e.construct := by
  cases h <;> rfl

/-- What two texts start with is the same if one text goes on like the other. -/
theorem Reads.construct_eq (h : Reads compiler s e) (h' : Reads compiler s' e') {r r' : Text}
    (heq : s ++ r = s' ++ r') : e.construct = e'.construct := by
  have hlead := h.leading_eq r
  rw [heq, h'.leading_eq r'] at hlead
  exact (Option.some.inj hlead).symm

/-- An expression is read in one way, whatever follows it. -/
theorem Reads.unique_append (hc : compiler.Documented) (h : Reads compiler s e)
    (h' : Reads compiler s' e') {r r' : Text} (heq : s ++ r = s' ++ r') : e = e' ∧ r = r' := by
  -- What both texts start with is the same, so each construct meets its own rule only.
  induction h generalizing s' e' r r' with
  | value =>
      have hconstruct := Reads.value.construct_eq h' heq
      cases h' with
      | value => exact ⟨rfl, List.append_cancel_left heq⟩
      | _ => cases hconstruct
  | error =>
      have hconstruct := Reads.error.construct_eq h' heq
      cases h' with
      | error => exact ⟨rfl, List.append_cancel_left heq⟩
      | _ => cases hconstruct
  | argument tokens =>
      have hconstruct := (Reads.argument tokens).construct_eq h' heq
      cases h' with
      | argument tokens' =>
          simp only [List.append_assoc] at heq
          rcases hc.streamText_closed _ _ _ _ (List.append_cancel_left heq) with ⟨hargument, hrest⟩
          exact ⟨congrArg Expr.argument hargument, List.append_cancel_left hrest⟩
      | _ => cases hconstruct
  | @constant body f hbody =>
      have hconstruct := (Reads.constant hbody).construct_eq h' heq
      cases h' with
      | @constant body' f' hbody' =>
          have hcomma : ∀ r t, "]))".toList ++ r ≠ ',' :: t := by
            intro r t hcontra
            cases hcontra
          simp only [List.append_assoc] at heq
          have htail := readByteList_append hbody (hcomma r)
          rw [List.append_cancel_left heq, readByteList_append hbody' (hcomma r')] at htail
          rcases Prod.mk.inj (Option.some.inj htail) with ⟨hbytes, hrest⟩
          exact ⟨congrArg Expr.constant (ext_bytes hbytes.symm),
            (List.append_cancel_left hrest).symm⟩
      | _ => cases hconstruct
  | parse h ih =>
      have hconstruct := (Reads.parse h).construct_eq h' heq
      cases h' with
      | parse h' =>
          simp only [List.append_assoc] at heq
          rcases ih h' (List.append_cancel_left heq) with ⟨rfl, hrest⟩
          exact ⟨rfl, List.append_cancel_left hrest⟩
      | _ => cases hconstruct
  | ok h ih =>
      have hconstruct := (Reads.ok h).construct_eq h' heq
      cases h' with
      | ok h' =>
          simp only [List.append_assoc] at heq
          have hargument := List.append_cancel_left (List.append_cancel_left heq)
          rcases ih h' hargument with ⟨rfl, hrest⟩
          exact ⟨rfl, List.append_cancel_left hrest⟩
      | _ => cases hconstruct
  | matchResult h hok herr ih ihok iherr =>
      have hconstruct := (Reads.matchResult h hok herr).construct_eq h' heq
      cases h' with
      | matchResult h' hok' herr' =>
          simp only [List.append_assoc] at heq
          rcases ih h' (List.append_cancel_left heq) with ⟨rfl, hrest⟩
          rcases ihok hok' (List.append_cancel_left hrest) with ⟨rfl, hrest'⟩
          rcases iherr herr' (List.append_cancel_left hrest') with ⟨rfl, hclose⟩
          exact ⟨rfl, List.append_cancel_left hclose⟩
      | _ => cases hconstruct
  | panic template argument =>
      have hconstruct := (Reads.panic template argument).construct_eq h' heq
      cases h' with
      | panic template' argument' =>
          simp only [List.append_assoc] at heq
          rcases hc.debugText_closed _ _ _ _ (List.append_cancel_left heq) with ⟨rfl, hrest⟩
          rcases hc.debugText_closed _ _ _ _ (List.append_cancel_left hrest) with ⟨rfl, hclose⟩
          exact ⟨rfl, List.append_cancel_left hclose⟩
      | _ => cases hconstruct

/-- What stands in place of a macro call is read in one way. -/
theorem ReadsAs.unique (hc : compiler.Documented) {m n : Expansion} (h : ReadsAs compiler s m)
    (h' : ReadsAs compiler s n) : m = n := by
  -- No expression starts like an error.
  have hrefused : ∀ {message : Text} {e : Expr},
      ¬ Reads compiler
        ("compile_error!(".toList ++ (compiler.debugText message ++ ")".toList)) e := by
    intro message e hread
    have hlead := hread.leading_eq []
    cases hlead
  cases h with
  | compileError message =>
      generalize htext : "compile_error!(".toList ++ (compiler.debugText message ++ ")".toList) = t
        at h'
      cases h' with
      | compileError message' =>
          have htail := List.append_cancel_left htext
          rw [(hc.debugText_closed _ _ _ _ htail).1]
      | expr h' =>
          rw [← htext] at h'
          exact absurd h' hrefused
  | expr h =>
      cases h' with
      | compileError message' => exact absurd h hrefused
      | expr h' =>
          have heq : s ++ [] = s ++ [] := rfl
          rw [(h.unique_append hc h' heq).1]

theorem ReadsAs.iff_eq (hc : compiler.Documented) {m : Expansion} (h : ReadsAs compiler s m)
    (n : Expansion) : ReadsAs compiler s n ↔ n = m := by
  constructor
  · intro h'
    exact h'.unique hc h
  · rintro rfl
    exact h

end Reads

/-! ## Evaluation -/

/-- The values of expressions. -/
inductive Value
  | text (t : Text)
  | float (f : Binding.Float)
  | error (e : FloatError)
  | result (r : Except FloatError Binding.Float)

/-- The names that the arm of a match has bound. -/
structure Env where
  value : Option Binding.Float
  error : Option FloatError

/-- The message of a `panic!`: each `{}` takes the next argument, and a name in braces the text of
what is bound to it. -/
def formatMessage (error : Option Text) : List Text → Text → Option Text
  | [], [] => some []
  | _ :: _, [] => none
  | arguments, '\x7b' :: '\x7d' :: t =>
    match arguments with
    | [] => none
    | argument :: rest => (formatMessage error rest t).map (argument ++ ·)
  | arguments, '\x7b' :: 'e' :: 'r' :: 'r' :: 'o' :: 'r' :: '\x7d' :: t => do
    let shown ← error
    let rest ← formatMessage error arguments t
    pure (shown ++ rest)
  | arguments, c :: t =>
    if c = '\x7b' ∨ c = '\x7d' then none else (formatMessage error arguments t).map (c :: ·)

/-- A value, or a panic with its message.  There is none of either where the types do not fit. -/
abbrev Evaluation :=
  ExceptT Text Option Value

def illTyped : Evaluation :=
  ExceptT.mk none

section Eval

variable (contract : Contract) (compiler : Compiler) (valueText : Text → Text)

/-- The value of an expression, `valueText` being what `to_string` gives for the value that the
argument of the macro call has when the program gets there. -/
def Expr.eval : Env → Expr → Evaluation
  | env, .value =>
    match env.value with
    | some f => pure (.float f)
    | none => illTyped
  | env, .error =>
    match env.error with
    | some e => pure (.error e)
    | none => illTyped
  | _, .argument expr => pure (.text (valueText expr))
  | _, .constant f => pure (.float f)
  | env, .parse e => do
    match ← e.eval env with
    | .text t => pure (.result (Binding.Float.parse contract t))
    | _ => illTyped
  | env, .ok e => do
    match ← e.eval env with
    | .float f => pure (.result (.ok f))
    | _ => illTyped
  | env, .matchResult e okArm errArm => do
    match ← e.eval env with
    | .result (.ok f) => okArm.eval { env with value := some f }
    | .result (.error e) => errArm.eval { env with error := some e }
    | _ => illTyped
  | env, .panic template subject =>
    match formatMessage (env.error.map compiler.errorText) [subject] template with
    | some message => throw message
    | none => illTyped

/-- What a macro call comes to. -/
inductive Outcome
  | refused (message : Text)
  | returns (v : Value)
  | panics (message : Text)

/-- What becomes of the program at an expansion. -/
def Expansion.run : Expansion → Option Outcome
  | .compileError message => some (.refused message)
  | .expr e =>
    match (e.eval contract compiler valueText ⟨none, none⟩).run with
    | some (.ok v) => some (.returns v)
    | some (.error message) => some (.panics message)
    | none => none

end Eval

end FloatMacro
end RainFloat
