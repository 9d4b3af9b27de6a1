import Ballpark.Binary64
import Ballpark.Decimal.Notation
import Ballpark.Exponent

/-!
# Dimensions

A dimension is a vector of fractions over nine base quantities, together with the powers of opaque
labels that a program makes up for itself. The labels are kept in order, each once and none with the
power zero, so that equal dimensions are equal values.
-/

namespace Ballpark

/-- The base quantities. -/
inductive Base where
  | mass | length | time | current | temperature | amount | luminous | angle | information
  deriving DecidableEq, Repr

namespace Base

/-- The base quantities in the order of a dimension's exponents. -/
def all : List Base :=
  [mass, length, time, current, temperature, amount, luminous, angle, information]

/-- The name of a base quantity. -/
def name : Base → String
  | mass => "mass" | length => "length" | time => "time" | current => "current"
  | temperature => "temperature" | amount => "amount" | luminous => "luminous"
  | angle => "angle" | information => "information"

/-- The symbol of the unit that a base quantity is measured in. -/
def symbol : Base → String
  | mass => "kg" | length => "m" | time => "s" | current => "A" | temperature => "K"
  | amount => "mol" | luminous => "cd" | angle => "rad" | information => "bit"

end Base

/-- Powers of labels, in the order of the labels. -/
abbrev LabelPowers := List (String × Rat)

namespace LabelPowers

/-- Adds a power to that of a label; a label whose powers cancel is dropped. -/
def add (label : String) (power : Rat) : LabelPowers → LabelPowers
  | [] => if power = 0 then [] else [(label, power)]
  | (l, p) :: rest =>
    if label < l then (if power = 0 then (l, p) :: rest else (label, power) :: (l, p) :: rest)
    else if label = l then (if p + power = 0 then rest else (l, p + power) :: rest)
    else (l, p) :: add label power rest

/-- The powers of both, added up. -/
def merge (a b : LabelPowers) : LabelPowers :=
  b.foldl (fun acc entry => add entry.1 entry.2 acc) a

/-- All powers multiplied by a fraction. -/
def scale (k : Rat) (a : LabelPowers) : LabelPowers :=
  (a.map fun entry => (entry.1, entry.2 * k)).filter (·.2 ≠ 0)

end LabelPowers

/-- The exponents of the base quantities and of the labels. -/
structure Dimension where
  exponents : Vector Rat 9
  labels : LabelPowers
  deriving DecidableEq, Repr

namespace Dimension

/-- The dimension of a plain number. -/
def one : Dimension :=
  ⟨Vector.replicate 9 0, []⟩

/-- The dimension with the given power of each base quantity. -/
def ofPowers (power : Base → Rat) : Dimension :=
  ⟨⟨#[power .mass, power .length, power .time, power .current, power .temperature, power .amount,
      power .luminous, power .angle, power .information], rfl⟩, []⟩

/-- The dimension of powers given for some base quantities. -/
def ofList (powers : List (Base × Rat)) : Dimension :=
  ofPowers fun b => ((powers.find? (·.1 = b)).map (·.2)).getD 0

/-- The dimension of a label. -/
def label (name : String) : Dimension :=
  ⟨Vector.replicate 9 0, [(name, 1)]⟩

/-- The dimension of a product. -/
def multiply (a b : Dimension) : Dimension :=
  ⟨Vector.zipWith (· + ·) a.exponents b.exponents, a.labels.merge b.labels⟩

/-- The dimension of a quotient. -/
def divide (a b : Dimension) : Dimension :=
  ⟨Vector.zipWith (· - ·) a.exponents b.exponents, a.labels.merge (b.labels.map fun e => (e.1, -e.2))⟩

/-- The dimension of a power. -/
def pow (a : Dimension) (k : Rat) : Dimension :=
  ⟨a.exponents.map (· * k), a.labels.scale k⟩

/-- Is it the dimension of plain numbers? -/
def isOne (a : Dimension) : Bool :=
  a.exponents.all (· == 0) && a.labels.isEmpty

/-- The names of dimensions, by their exponents. -/
def names : List (List Int × String) :=
  [([0, 1, 0, 0, 0, 0, 0, 0, 0], "length"),
   ([1, 0, 0, 0, 0, 0, 0, 0, 0], "mass"),
   ([0, 0, 1, 0, 0, 0, 0, 0, 0], "time"),
   ([0, 0, 0, 1, 0, 0, 0, 0, 0], "current"),
   ([0, 0, 0, 0, 1, 0, 0, 0, 0], "temperature"),
   ([0, 0, 0, 0, 0, 1, 0, 0, 0], "amount of substance"),
   ([0, 0, 0, 0, 0, 0, 1, 0, 0], "luminous intensity"),
   ([0, 0, 0, 0, 0, 0, 0, 1, 0], "angle"),
   ([0, 0, 0, 0, 0, 0, 0, 0, 1], "information"),
   ([0, 2, 0, 0, 0, 0, 0, 0, 0], "area"),
   ([0, 3, 0, 0, 0, 0, 0, 0, 0], "volume"),
   ([0, 0, -1, 0, 0, 0, 0, 0, 0], "frequency"),
   ([0, 1, -1, 0, 0, 0, 0, 0, 0], "velocity"),
   ([0, 1, -2, 0, 0, 0, 0, 0, 0], "acceleration"),
   ([1, 1, -1, 0, 0, 0, 0, 0, 0], "momentum"),
   ([1, 1, -2, 0, 0, 0, 0, 0, 0], "force"),
   ([1, 2, -2, 0, 0, 0, 0, 0, 0], "energy"),
   ([1, 2, -3, 0, 0, 0, 0, 0, 0], "power"),
   ([1, -1, -2, 0, 0, 0, 0, 0, 0], "pressure"),
   ([1, 2, -1, 0, 0, 0, 0, 0, 0], "angular momentum"),
   ([1, 2, 0, 0, 0, 0, 0, 0, 0], "moment of inertia"),
   ([0, 3, -1, 0, 0, 0, 0, 0, 0], "flow"),
   ([1, -3, 0, 0, 0, 0, 0, 0, 0], "mass density"),
   ([-1, 3, 0, 0, 0, 0, 0, 0, 0], "specific volume"),
   ([1, 0, -1, 0, 0, 0, 0, 0, 0], "mass flow rate"),
   ([0, 2, -2, 0, 0, 0, 0, 0, 0], "specific energy"),
   ([1, 0, -2, 0, 0, 0, 0, 0, 0], "surface tension"),
   ([0, 0, 1, 1, 0, 0, 0, 0, 0], "charge"),
   ([1, 2, -3, -1, 0, 0, 0, 0, 0], "voltage"),
   ([1, 2, -3, -2, 0, 0, 0, 0, 0], "resistance"),
   ([-1, -2, 3, 2, 0, 0, 0, 0, 0], "conductance"),
   ([1, 2, -2, -1, 0, 0, 0, 0, 0], "magnetic flux"),
   ([1, 2, -2, -2, 0, 0, 0, 0, 0], "inductance"),
   ([1, 0, -2, -1, 0, 0, 0, 0, 0], "magnetic flux density"),
   ([0, 1, -2, -1, 0, 0, 0, 0, 0], "electric field strength"),
   ([0, -1, 0, 1, 0, 0, 0, 0, 0], "magnetic field strength"),
   ([-1, -2, 4, 2, 0, 0, 0, 0, 0], "capacitance"),
   ([0, -2, 0, 1, 0, 0, 0, 0, 0], "current density"),
   ([0, -2, 1, 1, 0, 0, 0, 0, 0], "surface charge density"),
   ([0, -3, 1, 1, 0, 0, 0, 0, 0], "charge density"),
   ([1, 2, -2, 0, -1, 0, 0, 0, 0], "heat capacity"),
   ([0, 2, -2, 0, -1, 0, 0, 0, 0], "specific heat capacity"),
   ([1, 1, -3, 0, -1, 0, 0, 0, 0], "thermal conductivity"),
   ([0, -3, 0, 0, 0, 1, 0, 0, 0], "concentration"),
   ([0, 0, -1, 0, 0, 0, 0, 0, 1], "data rate"),
   ([0, 0, 0, 0, 0, 0, 0, 0, 0], "dimensionless")]

/-- The name of a dimension, if it has one. -/
def name? (a : Dimension) : Option String :=
  if a.labels.isEmpty then
    (names.find? fun entry => entry.1.map (fun (n : Int) => (n : Rat)) == a.exponents.toList).map (·.2)
  else none

/-- The text of a power: a whole number, or six significant figures of the nearest number. -/
def powerText (p : Rat) : String :=
  if p.den = 1 then toString p.num
  else Decimal.generalText 6 (.finite (decide (p.num < 0)) (Binary64.roundRat p))

/-- A name with its power, which is left out if it is one. -/
def factorText (name : String) (p : Rat) : String :=
  if p = 1 then name else name ++ "^" ++ powerText p

/-- The text of a dimension. -/
def text (a : Dimension) : String :=
  let bases := (Base.all.zip a.exponents.toList).filterMap fun (b, p) =>
    if p = 0 then none else some (factorText b.name p)
  let labels := a.labels.map fun (l, p) => factorText ("'" ++ l) p
  let parts := bases ++ labels
  if parts.isEmpty then "dimensionless" else " ".intercalate parts

/-- The dimension with the given exponents of all base quantities. -/
def ofExponents {R : Type} (exponents : List Rat) : Except (Fault R) Dimension :=
  if h : exponents.toArray.size = 9 then .ok ⟨⟨exponents.toArray, h⟩, []⟩
  else .error (.value (.dimensionLength 9 exponents.length))

/-- The base quantity of a name. -/
def base? (name : String) : Option Base :=
  Base.all.find? (·.name == name)

/-- The dimension with the given powers of named base quantities. -/
def ofNames {R : Type} [Scalar R] (powers : List (String × R)) : Except (Fault R) Dimension :=
  let unknown := (powers.map (·.1)).filter (base? · |>.isNone)
  if !unknown.isEmpty then
    .error (.value (.unknownBases (unknown.mergeSort fun a b => a ≤ b)))
  else do
    let exponents ← Base.all.mapM fun b =>
      match powers.find? (·.1 == b.name) with
      | some entry => Exponent.ofScalar entry.2
      | none => .ok 0
    ofExponents exponents

end Dimension

end Ballpark
