import RainFloat.Foundation.CheckedRun
import RainFloat.Foundation.Session
import RainFloat.Foundation.Extremum
import RainFloat.Foundation.TruncatedGrid
import RainFloat.Foundation.TruncationOrder
import RainFloat.Foundation.RelativeError
import RainFloat.Foundation.RadixDigits
import RainFloat.Reference.Rust
import RainFloat.Reference.Dec
import RainFloat.Reference.Arithmetic
import RainFloat.Reference.FixedDecimal
import RainFloat.Reference.Rounding
import RainFloat.Reference.Addition
import RainFloat.Reference.Division
import RainFloat.Reference.Unary
import RainFloat.Reference.FixedPoint
import RainFloat.Foundation.DecimalText
import RainFloat.Reference.Format
import RainFloat.Reference.Parse
import RainFloat.Reference.Reading
import RainFloat.Reference.Rendering
import RainFloat.Foundation.BigEndian
import RainFloat.Reference.Bytes
import RainFloat.Reference.Closure
import RainFloat.Reference.Comparison
import RainFloat.Reference.Congruence
import RainFloat.Reference.Order
import RainFloat.Reference.Thresholds
import RainFloat.Reference.Accuracy
import RainFloat.Reference.Difference
import RainFloat.Reference.Laws
import RainFloat.Reference.Amounts
import RainFloat.Reference.Symmetry
import RainFloat.Reference.Canonical
import RainFloat.Reference.Formula
import RainFloat.Reference.Clamping
import RainFloat.Binding.Evm
import RainFloat.Binding.Float
import RainFloat.Binding.Serde
import RainFloat.Binding.JsApi
import RainFloat.Binding.ContractLaws
import RainFloat.Binding.ReferenceContract
import RainFloat.Binding.RoundTrip
import RainFloat.Binding.Disambiguation
import RainFloat.Binding.Calls
import RainFloat.Binding.Checks
import RainFloat.Binding.Clients
import RainFloat.Binding.Simulation
import RainFloat.Binding.ReferenceConcrete
import RainFloat.Binding.Interchange
import RainFloat.Binding.JsFixedDecimal
import RainFloat.Binding.Normalize
import RainFloat.Binding.Display
import RainFloat.Binding.Formulas
import RainFloat.Foundation.ByteText
import RainFloat.Foundation.Automaton
import RainFloat.FloatMacro.NumericStr
import RainFloat.FloatMacro.NumericText
import RainFloat.FloatMacro.Tokens
import RainFloat.FloatMacro.Expand
import RainFloat.FloatMacro.Expression
import RainFloat.FloatMacro.Phase
import RainFloat.FloatMacro.SpellsNumber
import RainFloat.FloatMacro.CutNumber
import RainFloat.FloatMacro.Meaning
import RainFloat.FloatMacro.Paste
import RainFloat.Deploy.Reason
import RainFloat.Deploy.Walk
