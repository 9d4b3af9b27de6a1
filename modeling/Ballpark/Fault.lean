import Ballpark.Decimal.Shortest
import Ballpark.Scalar
import Ballpark.Suggestion
import Ballpark.Text.Quoted

/-!
# Faults

Everything that can go wrong, as causes. A fault carries the values that its message shows; the
wording is in `Fault.message` alone, and `Fault.kind` sorts the causes.
-/

namespace Ballpark

/-- The shortest text of a number that reads back as it. -/
def numberText {R : Type} [Scalar R] (x : R) : String :=
  let exact := Scalar.exact x
  exact.text (Decimal.shortest fun q => Scalar.exact (Scalar.ofRat q : R) == .finite false exact.toRat.abs)

/-- A computation with numbers that has no result. -/
inductive ArithmeticFault where
  /-- a power beyond every number -/
  | overflow
  | divisionByZero
  /-- zero raised to a negative power -/
  | zeroToNegative
  /-- an interval whose width is no number -/
  | intervalTooWide
  /-- an infinite exponent -/
  | infiniteRatio
  /-- an infinity where a whole number is needed -/
  | infiniteWhole
  /-- a rounded number beyond every number -/
  | roundedTooLarge
  /-- a fraction beyond every number -/
  | hugeFraction
  /-- a whole number beyond every number -/
  | hugeWhole
  /-- a fraction with the given sign divided by zero -/
  | fractionOverZero (sign : Int)
  deriving DecidableEq, Repr

namespace ArithmeticFault

/-- Is the fault a number that is too large, rather than a division by zero? -/
def isOverflow : ArithmeticFault → Bool
  | divisionByZero | zeroToNegative | fractionOverZero _ => false
  | _ => true

/-- The text of the fault. -/
def text : ArithmeticFault → String
  | overflow => "(34, 'Numerical result out of range')"
  | divisionByZero => "float division by zero"
  | zeroToNegative => "0.0 cannot be raised to a negative power"
  | intervalTooWide => "high - low range exceeds valid bounds"
  | infiniteRatio => "cannot convert Infinity to integer ratio"
  | infiniteWhole => "cannot convert float infinity to integer"
  | roundedTooLarge => "rounded value too large to represent"
  | hugeFraction => "integer division result too large for a float"
  | hugeWhole => "int too large to convert to float"
  | fractionOverZero sign => s!"Fraction({sign}, 0)"

end ArithmeticFault

/-- A value that an operation is not defined for. -/
inductive ValueFault where
  /-- a logarithm of nothing -/
  | mathDomain
  /-- an undefined exponent -/
  | undefinedRatio
  /-- an undefined number where a whole number is needed -/
  | undefinedWhole
  | unknownComparison (name : String)
  | sampleCount (shown : String)
  | confidence (shown : String)
  | dimensionLength (needed given : Nat)
  | unknownBases (names : List String)
  | noFormats
  | unknownFormats (names known : List String)
  /-- geometric steps from or to zero -/
  | geometricZero
  | noBins
  /-- bin edges that decrease -/
  | binEdges
  /-- a place for a number that no list has -/
  | negativeCount
  deriving DecidableEq, Repr

/-- The text of the fault. -/
def ValueFault.text : ValueFault → String
  | mathDomain => "math domain error"
  | undefinedRatio => "cannot convert NaN to integer ratio"
  | undefinedWhole => "cannot convert float NaN to integer"
  | unknownComparison name => "Unknown comparison operator: " ++ name
  | sampleCount shown => "sample count must be a positive integer, got " ++ shown
  | confidence shown => "confidence must lie strictly between 0 and 1, got " ++ shown
  | dimensionLength needed given => s!"Dimension needs {needed} exponents, got {given}"
  | unknownBases names => "Unknown base dimensions: " ++ Text.quotedList names
  | noFormats => "At least one output format is required"
  | unknownFormats names known => "Unsupported format(s) " ++ Text.quotedList names ++
      ". Expected one of (" ++ ", ".intercalate (known.map Text.quoted) ++ ")."
  | geometricZero => "Geometric sequence cannot include zero"
  | noBins => "`bins` must be positive, when an integer"
  | binEdges => "bins must increase monotonically, when an array"
  | negativeCount => "'list' argument must have no negative elements"

/-- What is wrong at a place of a program's text. -/
inductive ProgramIssue where
  | character (c : Char)
  | expected (what found : String)
  | expectedName (found : String)
  | expectedLiteral (found : String)
  | expectedUnit (found : String)
  | keyword (word : String)
  | unexpected (found : String)
  | nesting
  deriving DecidableEq, Repr

/-- The text of the issue. -/
def ProgramIssue.text : ProgramIssue → String
  | character c => "Unexpected character " ++ Text.quoted (String.singleton c)
  | expected what found => "Expected '" ++ what ++ "', got " ++ found
  | expectedName found => "Expected a name, got " ++ found
  | expectedLiteral found => "Expected a number after '~', got " ++ found
  | expectedUnit found => "Expected a unit after conversion, got " ++ found
  | keyword word => "Unexpected keyword '" ++ word ++ "'"
  | unexpected found => "Unexpected " ++ found
  | nesting => "Nesting too deep"

/-- An issue with the place of the offending character or token. -/
structure ProgramFault where
  issue : ProgramIssue
  line : Nat
  column : Nat
  deriving DecidableEq, Repr

/-- What is wrong with the text of a unit. -/
inductive UnitIssue where
  | character (c : Char) (column : Nat)
  | ended
  | expected (what found : String)
  | expectedExponent (found : String)
  | unexpected (found : String)
  deriving DecidableEq, Repr

/-- The text of the issue. -/
def UnitIssue.text (unit : String) : UnitIssue → String
  | character c column => "Unexpected character " ++ Text.quoted (String.singleton c) ++
      " in unit '" ++ unit ++ s!"' (line 1, column {column})"
  | ended => "Unexpected end of unit '" ++ unit ++ "'"
  | expected what found => "Expected " ++ Text.quoted what ++ " in unit '" ++ unit ++ "', got " ++
      Text.quoted found
  | expectedExponent found => "Expected exponent in unit '" ++ unit ++ "', got " ++ Text.quoted found
  | unexpected found => "Unexpected " ++ Text.quoted found ++ " in unit '" ++ unit ++ "'"

/-- Units that do not go together, each by its text. -/
inductive UnitClash where
  | combine (action left right : String)
  | convert (source target sourceDimension targetDimension : String)
  | branches (yes no : String)
  | bounds (left right : String)
  | exponent (unit : String)
  /-- an argument that must have no unit -/
  | notPlain (function unit : String)
  /-- an argument that must be a plain number or an angle -/
  | notAngle (function unit : String)
  | arguments (function left right : String)
  | scores (forecast observation : String)
  deriving DecidableEq, Repr

/-- The text of the clash. -/
def UnitClash.text : UnitClash → String
  | combine action left right => "Cannot " ++ action ++ " quantities with incompatible units: '" ++
      left ++ "' and '" ++ right ++ "'"
  | convert source target sourceDimension targetDimension => "Cannot convert from '" ++ source ++
      "' to '" ++ target ++ "': dimensions " ++ sourceDimension ++ " and " ++ targetDimension ++
      " differ"
  | branches yes no => "if branches have incompatible units: '" ++ yes ++ "' and '" ++ no ++ "'"
  | bounds left right => "Range bounds have incompatible units: '" ++ left ++ "' and '" ++ right ++ "'"
  | exponent unit => "Exponent must be dimensionless, got '" ++ unit ++ "'"
  | notPlain function unit => function ++ "() requires dimensionless argument, got '" ++ unit ++ "'"
  | notAngle function unit => function ++ "() requires dimensionless or angle argument, got '" ++
      unit ++ "'"
  | arguments function left right => function ++ "() requires arguments with compatible units, got '" ++
      left ++ "' and '" ++ right ++ "'"
  | scores forecast observation => "crps functions require arguments with compatible units, got '" ++
      forecast ++ "' and '" ++ observation ++ "'"

/-- A parameter outside the domain of a sampler or function. -/
inductive ParameterFault (R : Type) where
  | notFinite (sampler : String) (values : List R)
  | confidence (shown : String)
  | boundsNotPositive (low high : R)
  | boundsOrder (sampler : String) (low high : R)
  | negativeDeviation (value : R)
  | notPositive (what : String) (value : R)
  | negativeSuccesses (value : R)
  | tooManySuccesses (successes total : R)
  | trials (value : R)
  | probability (value : R)
  | noValues
  | unequalLengths
  | negativeWeights
  | noWeight
  | emptySample
  | emptySummary
  | bins (shown : String)
  | dots (shown : String)
  | unitPower (unit : String) (power : R)
  | unitCount (name : String)
  | exponentNotScalar
  | literalRange (literal : String)
  | notQuantity (shown : String)
  | noInputs

/-- The text of the fault. -/
def ParameterFault.text {R : Type} [Scalar R] : ParameterFault R → String
  | notFinite sampler values => sampler ++ " parameters must be finite, got " ++
      ", ".intercalate (values.map numberText)
  | confidence shown => "Confidence must be in (0, 1), got " ++ shown
  | boundsNotPositive low high => "Lognormal bounds must be positive, got " ++ numberText low ++
      " and " ++ numberText high
  | boundsOrder sampler low high => sampler ++ " lower bound " ++ numberText low ++
      " must be less than upper bound " ++ numberText high
  | negativeDeviation value => "Standard deviation must be non-negative, got " ++ numberText value
  | notPositive what value => what ++ " must be positive, got " ++ numberText value
  | negativeSuccesses value => "Successes must be non-negative, got " ++ numberText value
  | tooManySuccesses successes total => "Successes (" ++ numberText successes ++
      ") cannot exceed total (" ++ numberText total ++ ")"
  | trials value => "Binomial n must be a positive integer, got " ++ numberText value
  | probability value => "Binomial p must be between 0 and 1, got " ++ numberText value
  | noValues => "Values array cannot be empty"
  | unequalLengths => "Values and weights arrays must have the same length"
  | negativeWeights => "Weights must be non-negative"
  | noWeight => "Total weight must be positive"
  | emptySample => "Quantity requires at least one sample"
  | emptySummary => "Cannot summarize an empty sample set"
  | bins shown => "Histogram needs at least one bin, got " ++ shown
  | dots shown => "Dotplot needs at least one dot, got " ++ shown
  | unitPower unit power => "Cannot raise unit '" ++ unit ++ "' to the non-finite power " ++
      numberText power
  | unitCount name => "Unit definition for " ++ name ++ " needs a non-zero count"
  | exponentNotScalar => "Exponent must be a dimensionless scalar"
  | literalRange literal => "Literal ~" ++ literal ++ " is outside the floating-point range"
  | notQuantity shown => "Expected a quantity argument, got " ++ shown
  | noInputs => "Sensitivity analysis needs at least one input"

/-- A call with a number of arguments that the function does not take. -/
inductive ArityFault where
  | builtin (name : String) (given : Nat)
  | defined (name : String) (expected given : Nat)
  deriving DecidableEq, Repr

/-- The text of the fault. -/
def ArityFault.text : ArityFault → String
  | builtin name given => name ++ s!"() does not accept {given} argument" ++
      (if given = 1 then "" else "s")
  | defined name expected given => "Function " ++ name ++
      s!" expects {expected} arguments, got {given}"

/-- A syntax tree that has no value. -/
inductive EvaluationIssue where
  | unknownNode (kind : String)
  | noValue (kind : String)
  | unknownOperator (name : String)
  | unknownUnaryOperator (name : String)
  | uncertainExponent
  /-- a statement whose computation has no result -/
  | arithmetic (cause : ArithmeticFault)
  /-- a builtin function whose computation has no result -/
  | callArithmetic (name : String) (cause : ArithmeticFault)
  | callValue (name : String) (cause : ValueFault)
  deriving DecidableEq, Repr

/-- The text of the issue. -/
def EvaluationIssue.text : EvaluationIssue → String
  | unknownNode kind => "Unknown node type: " ++ kind
  | noValue kind => kind ++ " does not produce a value"
  | unknownOperator name => "Unknown operator: " ++ name
  | unknownUnaryOperator name => "Unknown unary operator: " ++ name
  | uncertainExponent => "Exponent cannot be a distribution"
  | arithmetic cause => "Arithmetic error: " ++ cause.text
  | callArithmetic name cause => "Error calling function " ++ name ++ ": " ++ cause.text
  | callValue name cause => "Error calling function " ++ name ++ ": " ++ cause.text

/-- A cause of failure. -/
inductive Fault (R : Type) where
  /-- a program that does not parse -/
  | program (cause : ProgramFault)
  /-- a unit text that does not parse -/
  | unitText (unit : String) (issue : UnitIssue)
  | unknownUnit (name : String) (hints : List String)
  | undefinedVariable (name : String) (hints : List String)
  | undefinedFunction (name : String) (hints : List String)
  | units (clash : UnitClash)
  /-- a range whose left bound alone has a unit -/
  | mixedUnits
  | parameter (cause : ParameterFault R)
  | percentile (value : R)
  | quantile (value : R)
  | notPositive (function : String) (value : R)
  | arity (cause : ArityFault)
  | evaluation (issue : EvaluationIssue)
  | arithmetic (cause : ArithmeticFault)
  | value (cause : ValueFault)
  | missingColumns (names : List String)
  /-- operands or arguments of the wrong sort -/
  | wrongSort
  /-- an evaluation or a sampler that went on too long -/
  | exhausted

/-- The sorts of faults. -/
inductive FaultKind where
  | parse | unknownUnit | undefinedVariable | undefinedFunction | incompatibleUnits | mixedUnits
  | invalidParameter | outOfRange | nonPositive | arity | evaluation
  | overflow | zeroDivision | value | key | wrongSort | exhausted
  deriving DecidableEq, Repr

namespace Fault

variable {R : Type}

/-- The sort of a fault. -/
def kind : Fault R → FaultKind
  | program _ | unitText .. => .parse
  | unknownUnit .. => .unknownUnit
  | undefinedVariable .. => .undefinedVariable
  | undefinedFunction .. => .undefinedFunction
  | units _ => .incompatibleUnits
  | mixedUnits => .mixedUnits
  | parameter _ => .invalidParameter
  | percentile _ | quantile _ => .outOfRange
  | notPositive .. => .nonPositive
  | arity _ => .arity
  | evaluation _ => .evaluation
  | arithmetic cause => if cause.isOverflow then .overflow else .zeroDivision
  | value _ => .value
  | missingColumns _ => .key
  | wrongSort => .wrongSort
  | exhausted => .exhausted

/-- The message of a fault. -/
def message [Scalar R] : Fault R → String
  | program cause => cause.issue.text ++ s!" (line {cause.line}, column {cause.column})"
  | unitText unit issue => issue.text unit
  | unknownUnit name hints =>
    let hint := Suggestion.hint hints
    "Unknown unit '" ++ name ++ "'" ++ (if hint.isEmpty then ". Use 'name for custom units" else hint)
  | undefinedVariable name hints => "Undefined variable: " ++ name ++ Suggestion.hint hints
  | undefinedFunction name hints => "Undefined function: " ++ name ++ Suggestion.hint hints
  | units clash => clash.text
  | mixedUnits => "Cannot mix units and unitless in range. " ++
      "Use trailing unit: \"1 to 10 m\" not \"1 m to 10\""
  | parameter cause => cause.text
  | percentile p => "Percentile must be between 0 and 1, got " ++ numberText p
  | quantile p => "quantile() probability must be between 0 and 1, got " ++ numberText p
  | notPositive function x => function ++ " requires strictly positive values, got " ++ numberText x
  | arity cause => cause.text
  | evaluation issue => issue.text
  | arithmetic cause => cause.text
  | value cause => cause.text
  | missingColumns names => "Summary table is missing column(s): " ++ Text.quotedList names
  | wrongSort => "operands or arguments of the wrong sort"
  | exhausted => "evaluation went on too long"

/-- Is the fault one of the calculator's own, rather than of the arithmetic below it? -/
def isCalculators (f : Fault R) : Bool :=
  match f.kind with
  | .overflow | .zeroDivision | .value | .key | .wrongSort | .exhausted => false
  | _ => true

end Fault

end Ballpark
