import Ballpark.Comparison
import Ballpark.Sample
import Ballpark.Unit.Reading

/-!
# Quantities

A value with a unit. Sums and comparisons convert the second operand into the unit of the first;
products bring the units together and apply the scale that this sets free. Division by zero and the
like give infinite or undefined particles, never a fault: only units can make arithmetic fail.
-/

namespace Ballpark

/-- A value with a unit. -/
structure Quantity (R : Type) where
  value : Value R
  unit : CompoundUnit R
  deriving Repr

namespace Quantity

variable {R : Type}

/-- An exact plain number. -/
def plain (x : R) : Quantity R :=
  ⟨.scalar x, .one⟩

/-- Is the quantity exact? -/
def isScalar (q : Quantity R) : Bool :=
  q.value.isScalar

/-- The number of particles. -/
def size (q : Quantity R) : Nat :=
  q.value.particles.size

/-- Does the quantity have a unit? -/
def hasUnit (q : Quantity R) : Bool :=
  !q.unit.isPlain

/-- A function applied to each particle; the unit stays. -/
def map (f : R → R) (q : Quantity R) : Quantity R :=
  ⟨q.value.map f, q.unit⟩

variable [Scalar R]

/-- A value in the unit of a text. -/
def ofText (value : Value R) (unit : String) : Except (Fault R) (Quantity R) := do
  let (u, scale) ← CompoundUnit.ofText unit
  return ⟨value.map (· * scale), u⟩

/-- What the second operand is multiplied by to be in the unit of the first. -/
def commonFactor (action : String) (a b : Quantity R) : Except (Fault R) R :=
  if a.unit.sameDimension b.unit then b.unit.conversionFactor a.unit
  else .error (.units (.combine action a.unit.text b.unit.text))

/-- The sum, in the unit of the first. -/
def add (a b : Quantity R) : Except (Fault R) (Quantity R) := do
  let factor ← commonFactor "add" a b
  return ⟨a.value.zipWith (fun x y => x + y * factor) b.value, a.unit⟩

/-- The difference, in the unit of the first. -/
def subtract (a b : Quantity R) : Except (Fault R) (Quantity R) := do
  let factor ← commonFactor "subtract" a b
  return ⟨a.value.zipWith (fun x y => x - y * factor) b.value, a.unit⟩

/-- The product. -/
def multiply (a b : Quantity R) : Except (Fault R) (Quantity R) := do
  let (unit, scale) ← a.unit.multiply b.unit
  return ⟨a.value.zipWith (fun x y => x * y * scale) b.value, unit⟩

/-- The quotient. -/
def divide (a b : Quantity R) : Except (Fault R) (Quantity R) := do
  let (unit, scale) ← a.unit.divide b.unit
  return ⟨a.value.zipWith (fun x y => x / y * scale) b.value, unit⟩

/-- A power with a number as exponent. -/
def pow (q : Quantity R) (k : R) : Except (Fault R) (Quantity R) := do
  let unit ← q.unit.pow k
  return ⟨q.value.map (Scalar.pow · k), unit⟩

/-- The opposite. -/
def negate (q : Quantity R) : Quantity R :=
  q.map (- ·)

/-- How far apart two numbers may be that compare as equal. -/
def equalityTolerance : Rat := 1e-10

/-- Do two numbers stand in the given order? Equal numbers may differ by the tolerance. -/
def holds (c : Comparison) (x y : R) : Bool :=
  let tolerance : R := Scalar.ofRat equalityTolerance
  match c with
  | .greater => Scalar.lt y x
  | .less => Scalar.lt x y
  | .greaterEqual => Scalar.le y x
  | .lessEqual => Scalar.le x y
  | .equal => Scalar.lt (Scalar.apply .abs (x - y)) tolerance
  | .unequal => Scalar.le tolerance (Scalar.apply .abs (x - y))

/-- One where the comparison holds, zero elsewhere. -/
def compare (c : Comparison) (a b : Quantity R) : Except (Fault R) (Quantity R) := do
  let factor ← commonFactor "compare" a b
  return ⟨a.value.zipWith (fun x y => Scalar.ofBool (holds c x (y * factor))) b.value, .one⟩

/-- A comparison given by its text. -/
def compareNamed (name : String) (a b : Quantity R) : Except (Fault R) (Quantity R) :=
  match Comparison.ofText? name with
  | some c => compare c a b
  | none => .error (.value (.unknownComparison name))

/-- The quantity in another unit of the same dimension. -/
def convert (q : Quantity R) (unit : CompoundUnit R) : Except (Fault R) (Quantity R) := do
  let factor ← q.unit.conversionFactor unit
  return ⟨q.value.map (· * factor), unit⟩

/-- The quantity in the unit of a text; a number in that text has no effect. -/
def convertTo (q : Quantity R) (unit : String) : Except (Fault R) (Quantity R) := do
  q.convert (← CompoundUnit.ofText unit).1

/-- The quantity in base units. -/
def toBase (q : Quantity R) : Except (Fault R) (Quantity R) := do
  let (unit, factor) ← q.unit.toBase
  return ⟨q.value.map (· * factor), unit⟩

/-! ## Statistics -/

/-- The mean; an exact quantity is its own mean. -/
def mean (q : Quantity R) : R :=
  match q.value with
  | .scalar x => x
  | .sample s => s.mean

/-- The median. -/
def median (q : Quantity R) : R :=
  match q.value with
  | .scalar x => x
  | .sample s => s.median

/-- The variance, zero if the quantity is exact. -/
def variance (q : Quantity R) : R :=
  match q.value with
  | .scalar _ => Scalar.ofNat 0
  | .sample s => s.variance

/-- The standard deviation, zero if the quantity is exact. -/
def deviation (q : Quantity R) : R :=
  match q.value with
  | .scalar _ => Scalar.ofNat 0
  | .sample s => Scalar.apply .sqrt s.variance

/-- The smallest particle. -/
def min (q : Quantity R) : R :=
  q.value.particles.min

/-- The largest particle. -/
def max (q : Quantity R) : R :=
  q.value.particles.max

/-- Is the number a probability? -/
def isProbability (p : R) : Bool :=
  Scalar.le (Scalar.ofNat 0) p && Scalar.le p (Scalar.ofNat 1)

/-- The particle at a given share of the order. -/
def percentile (q : Quantity R) (p : R) : Except (Fault R) R :=
  if !isProbability p then .error (.percentile p)
  else match q.value with
    | .scalar x => .ok x
    | .sample s => .ok (s.orderStatistic p)

/-- The particle at a share that is known to be one. -/
def percentileAt (q : Quantity R) (p : Rat) : R :=
  match q.value with
  | .scalar x => x
  | .sample s => s.orderStatistic (Scalar.ofRat p)

/-! ## Equality and texts -/

/-- Are two values equal, particle by particle? -/
def equalValues : Value R → Value R → Bool
  | .scalar x, .scalar y => Scalar.eq x y
  | .sample s, .sample t => s.size == t.size && (s.toList.zip t.toList).all fun p => Scalar.eq p.1 p.2
  | _, _ => false

/-- Do two quantities have equal units and equal values? -/
def equal (a b : Quantity R) : Except (Fault R) Bool := do
  return (← a.unit.equal b.unit) && equalValues a.value b.value

/-- A number in four significant figures. -/
def shortNumber (x : R) : String :=
  Decimal.generalText 4 (Scalar.exact x)

/-- The text of a quantity: its number, or its mean and central range, and its unit. -/
def text (q : Quantity R) : String :=
  let unit := q.unit.text
  Text.trimText <| match q.value with
    | .scalar x => shortNumber x ++ " " ++ unit
    | .sample _ => shortNumber q.mean ++ " [" ++ shortNumber (q.percentileAt 0.05) ++ ", " ++
        shortNumber (q.percentileAt 0.95) ++ "] " ++ unit

/-- The text of a quantity as a value. -/
def quotedText (q : Quantity R) : String :=
  let unit := Text.quoted q.unit.text
  match q.value with
  | .scalar x => "Quantity(" ++ numberText x ++ ", " ++ unit ++ ")"
  | .sample s => "Quantity(<" ++ toString s.size ++ " samples>, " ++ unit ++ ")"

end Quantity

end Ballpark
