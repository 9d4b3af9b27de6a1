import Ballpark.Score
import Ballpark.Summary

/-!
# Functions of quantities

The functions that a program may call on quantities, with the rule that each has for units: some keep
the unit, some need plain numbers, some take or give angles, and those of several quantities bring
them into the unit of the first.
-/

namespace Ballpark

/-- How messages name a function of one number. -/
def Elementary.name : Elementary → String
  | abs => "abs" | sign => "sign" | floor => "floor" | ceil => "ceil" | round => "round"
  | trunc => "trunc" | sqrt => "sqrt" | cbrt => "cbrt" | exp => "exp" | expm1 => "expm1"
  | log => "log" | log10 => "log10" | log2 => "log2" | log1p => "log1p"
  | sin => "sin" | cos => "cos" | tan => "tan" | asin => "asin" | acos => "acos" | atan => "atan"
  | sinh => "sinh" | cosh => "cosh" | tanh => "tanh"
  | asinh => "asinh" | acosh => "acosh" | atanh => "atanh"

/-- A function of quantities. -/
inductive MathFunction where
  /-- a function of each particle that keeps the unit -/
  | keepingUnit (f : Elementary)
  /-- the sign, a plain number -/
  | sign
  /-- a function of plain numbers -/
  | ofPlain (f : Elementary)
  /-- a function of angles; plain numbers are radians -/
  | ofAngle (f : Elementary)
  /-- a function from plain numbers to angles -/
  | toAngle (f : Elementary)
  | squareRoot | cubeRoot | power
  | minimum | maximum | hypotenuse
  /-- the angle of a point, given its second coordinate and its first -/
  | pointAngle
  /-- a number kept between two bounds -/
  | clamp
  /-- the particle at a given probability -/
  | quantile
  /-- the particle at a fixed share -/
  | fixedQuantile (share : Rat)
  | mean | deviation
  | score (scale : Score.Scale) (part : Score.Part)
  deriving DecidableEq, Repr

namespace MathFunction

/-- The functions under their names. -/
def table : List (String × MathFunction) := [
  ("abs", keepingUnit .abs),
  ("sign", sign),
  ("floor", keepingUnit .floor),
  ("ceil", keepingUnit .ceil),
  ("round", keepingUnit .round),
  ("trunc", keepingUnit .trunc),
  ("sqrt", squareRoot),
  ("cbrt", cubeRoot),
  ("exp", ofPlain .exp),
  ("expm1", ofPlain .expm1),
  ("pow", power),
  ("log", ofPlain .log),
  ("ln", ofPlain .log),
  ("log10", ofPlain .log10),
  ("log2", ofPlain .log2),
  ("log1p", ofPlain .log1p),
  ("sin", ofAngle .sin),
  ("cos", ofAngle .cos),
  ("tan", ofAngle .tan),
  ("asin", toAngle .asin),
  ("acos", toAngle .acos),
  ("atan", toAngle .atan),
  ("atan2", pointAngle),
  ("sinh", ofPlain .sinh),
  ("cosh", ofPlain .cosh),
  ("tanh", ofPlain .tanh),
  ("asinh", ofPlain .asinh),
  ("acosh", ofPlain .acosh),
  ("atanh", ofPlain .atanh),
  ("min", minimum),
  ("max", maximum),
  ("hypot", hypotenuse),
  ("clamp", clamp),
  ("quantile", quantile),
  ("percentile", quantile),
  ("p5", fixedQuantile 0.05),
  ("p10", fixedQuantile 0.10),
  ("p25", fixedQuantile 0.25),
  ("median", fixedQuantile 0.5),
  ("p75", fixedQuantile 0.75),
  ("p90", fixedQuantile 0.90),
  ("p95", fixedQuantile 0.95),
  ("p99", fixedQuantile 0.99),
  ("mean", mean),
  ("std", deviation),
  ("crps", score .plain .score),
  ("crps_reliability", score .plain .reliability),
  ("crps_resolution", score .plain .resolution),
  ("logcrps", score .log .score),
  ("logcrps_reliability", score .log .reliability),
  ("logcrps_resolution", score .log .resolution),
  ("dbcrps", score .decibel .score),
  ("dbcrps_reliability", score .decibel .reliability),
  ("dbcrps_resolution", score .decibel .resolution)]

/-- The function of a name. -/
def ofName? (name : String) : Option MathFunction :=
  table.lookup name

end MathFunction

/-- What a function computes, by the number of its arguments. -/
inductive Operation (R : Type) where
  | unary (f : Quantity R → Except (Fault R) (Quantity R))
  | binary (f : Quantity R → Quantity R → Except (Fault R) (Quantity R))
  | ternary (f : Quantity R → Quantity R → Quantity R → Except (Fault R) (Quantity R))

/-- Applies an operation; none if it does not take so many arguments. -/
def Operation.call? {R : Type} :
    Operation R → List (Quantity R) → Option (Except (Fault R) (Quantity R))
  | unary f, [a] => some (f a)
  | binary f, [a, b] => some (f a b)
  | ternary f, [a, b, c] => some (f a b c)
  | _, _ => none

namespace MathFunction

variable {R : Type} [Scalar R]

/-- The dimension of angles. -/
def angle : Dimension :=
  .ofList [(.angle, 1)]

/-- The unit of angles. -/
def radian : CompoundUnit R :=
  .ofDimension angle

/-- Goes on only with a plain number. -/
def requirePlain (function : String) (q : Quantity R) : Except (Fault R) PUnit :=
  if q.hasUnit then .error (.units (.notPlain function q.unit.text)) else .ok ⟨⟩

/-- Goes on only with quantities of one dimension. -/
def requireSame (function : String) (first other : Quantity R) : Except (Fault R) PUnit :=
  if first.unit.sameDimension other.unit then .ok ⟨⟩
  else .error (.units (.arguments function first.unit.text other.unit.text))

/-- An angle in radians. -/
def inRadians (function : String) (q : Quantity R) : Except (Fault R) (Quantity R) :=
  if !q.hasUnit then .ok q
  else if q.unit.dimension = angle then q.convert radian
  else .error (.units (.notAngle function q.unit.text))

/-- Two quantities combined in the unit of the first. -/
def inUnitOfFirst (function : String) (f : R → R → R) (a b : Quantity R) :
    Except (Fault R) (Quantity R) := do
  requireSame function a b
  return ⟨a.value.zipWith f (← b.convert a.unit).value, a.unit⟩

/-- A power; an uncertain exponent gives a plain number. -/
def raise (base exponent : Quantity R) : Except (Fault R) (Quantity R) := do
  requirePlain "pow" exponent
  match exponent.value with
  | .scalar k => base.pow k
  | .sample k => return ⟨base.value.zipWith Scalar.pow (.sample k), .one⟩

/-- A quantity kept between two bounds. -/
def between (q low high : Quantity R) : Except (Fault R) (Quantity R) := do
  requireSame "clamp" q low
  requireSame "clamp" q high
  let low ← low.convert q.unit
  let high ← high.convert q.unit
  let keep (x low high : R) : R := Scalar.maximum low (Scalar.minimum high x)
  return ⟨q.value.zipWith3 keep low.value high.value, q.unit⟩

/-- What a function computes. -/
def operation : MathFunction → Operation R
  | keepingUnit f => .unary fun q => .ok (q.map (Scalar.apply f))
  | sign => .unary fun q => .ok ⟨q.value.map (Scalar.apply .sign), .one⟩
  | ofPlain f => .unary fun q => do
    requirePlain f.name q
    return ⟨q.value.map (Scalar.apply f), .one⟩
  | ofAngle f => .unary fun q => do
    return ⟨(← inRadians f.name q).value.map (Scalar.apply f), .one⟩
  | toAngle f => .unary fun q => do
    requirePlain f.name q
    return ⟨q.value.map (Scalar.apply f), radian⟩
  | squareRoot => .unary (·.pow (Scalar.ofRat 0.5))
  | cubeRoot => .unary fun q => do
    return ⟨q.value.map (Scalar.apply .cbrt), ← q.unit.pow (Scalar.ofRat (1 / 3))⟩
  | power => .binary raise
  | minimum => .binary (inUnitOfFirst "min" Scalar.minimum)
  | maximum => .binary (inUnitOfFirst "max" Scalar.maximum)
  | hypotenuse => .binary (inUnitOfFirst "hypot" Scalar.hypot)
  | pointAngle => .binary fun y x => do
    return { ← inUnitOfFirst "atan2" Scalar.atan2 y x with unit := radian }
  | clamp => .ternary between
  | quantile => .binary Summary.quantile
  | fixedQuantile share => .unary fun q => .ok (Summary.fixedQuantile share q)
  | mean => .unary fun q => .ok (Summary.mean q)
  | deviation => .unary fun q => .ok (Summary.deviation q)
  | score scale part => .binary (Score.evaluate scale part)

end MathFunction

end Ballpark
