import RainFloat.Foundation.DecimalText
import RainFloat.Reference.Format
import RainFloat.Reference.Pack

/-!
# Parse — the reference's reading of a decimal literal

`literalValue` is only meant for texts of the grammar `-?[0-9]+(\.[0-9]+)?([eE][+-]?[0-9]+)?`; on
other texts an `unwrap` may fail.  `parseRef` is the outcome the concrete must give for such a
literal.
-/

namespace RainFloat
namespace Reference

open Foundation Dec

/-- The outcomes of `parse_ref`: a Float, or the signature of the error selector. -/
inductive ParseRef
  | value (v : Dec)
  | selector (signature : String)
  deriving DecidableEq, Repr

/-! ## Numbers from text -/

/-- `str::strip_prefix` of one character -/
def stripPrefix (p : Char) : Text → Option Text
  | [] => none
  | c :: t => if c = p then some t else none

/-- The sign in front of an integer, and the text behind it. -/
def splitSign (s : Text) : Bool × Text :=
  match stripPrefix '-' s with
  | some t => (true, t)
  | none => (false, (stripPrefix '+' s).getD s)

/-- `<i64 as FromStr>::from_str` -/
def parseI64 (s : Text) : Option Int :=
  let (negative, ds) := splitSign s
  if ds ≠ [] ∧ ds.all Char.isDigit then
    let n : Int := Nat.ofDigitChars 10 ds 0
    let z := if negative then -n else n
    if I64 z then some z else none
  else
    none

/-- `<BigUint as FromStr>::from_str`, which drops one leading plus sign and skips underscores after
the first digit. -/
def parseBigUint (s : Text) : Option Nat :=
  let s := ((stripPrefix '+' s).filter fun t => t.head? ≠ some '+').getD s
  if s = [] ∨ s.head? = some '_' then
    none
  else
    let ds := s.filter (· ≠ '_')
    if ds.all Char.isDigit then some (Nat.ofDigitChars 10 ds 0) else none

/-- `<BigInt as FromStr>::from_str` -/
def parseBigInt (s : Text) : Option Int :=
  match stripPrefix '-' s with
  | some t => (parseBigUint (if t.head? = some '+' then s else t)).map fun n => -(n : Int)
  | none => (parseBigUint s).map Int.ofNat

/-! ## Literals -/

/-- The mantissa of a literal and its exponent. -/
def splitExponent (s : Text) : Exec (Text × Int) :=
  match splitOnce (fun c => c = 'e' || c = 'E') s with
  | some (mantissa, exp) => do
    -- `trim_start_matches`: every leading plus sign goes, not just one.
    let e ← unwrap (parseI64 (exp.dropWhile (· = '+')))
    pure (mantissa, e)
  | none => pure (s, 0)

/-- The digits of a mantissa before the point and behind it. -/
def splitPoint (mantissa : Text) : Text × Text :=
  (splitOnce (· = '.') mantissa).getD (mantissa, [])

def literalValue (s : Text) : Exec Dec := do
  let (mantissa, exp) ← splitExponent s
  let (int, frac) := splitPoint mantissa
  -- The digits are read without their sign, which is put back on the number.
  let n ← unwrap (parseBigInt (int.dropWhile (· = '-') ++ frac))
  let c := if int.head? = some '-' then -n else n
  let e ← i64 (exp - frac.length)
  pure ⟨c, e⟩

def parseRef (s : Text) : Exec ParseRef := do
  let x ← literalValue s
  let p ← pack x
  match p with
  | .value v true => pure (.value v)
  | .value _ false | .underflow => pure (.selector "ParseDecimalPrecisionLoss(uint256)")
  | .overflow => pure (.selector "ExponentOverflow(int256,int256)")

end Reference
end RainFloat
