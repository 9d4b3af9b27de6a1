import Ballpark.Arithmetic
import Ballpark.Unit.Name

/-!
# Compound units

A unit is an ordered product of powers of named units, each kept under the symbol it was written with.
Multiplying units brings the product into canonical form: factors that differ by a number alone are
merged into the first of them, counting words and cancelled dimensions are folded out, and the number
that this sets free is handed back as a scale, to be applied to the values.
-/

namespace Ballpark

/-- A factor of a unit. -/
structure UnitTerm (R : Type) where
  symbol : String
  unit : NamedUnit R
  power : Rat
  deriving Repr

/-- A product of powers of named units. -/
structure CompoundUnit (R : Type) where
  terms : List (UnitTerm R)
  deriving Repr

/-- The text of a factor raised to a power. -/
def UnitTerm.text {R : Type} (t : UnitTerm R) (power : Rat) : String :=
  Dimension.factorText t.symbol power

namespace CompoundUnit

variable {R : Type}

/-- The unit of plain numbers. -/
def one : CompoundUnit R :=
  ⟨[]⟩

/-- The dimension of a unit. -/
def dimension (u : CompoundUnit R) : Dimension :=
  u.terms.foldl (fun d t => d.multiply (t.unit.dimension.pow t.power)) Dimension.one

/-- Is it a unit of plain numbers? -/
def isPlain (u : CompoundUnit R) : Bool :=
  u.dimension.isOne

/-- Do two units measure the same quantity? -/
def sameDimension (u v : CompoundUnit R) : Bool :=
  u.dimension = v.dimension

/-- The text of a unit: the factors with positive powers, a slash, and the others, in parentheses if
there are several. -/
def text (u : CompoundUnit R) : String :=
  let above := (u.terms.filter (0 < ·.power)).map fun t => t.text t.power
  let below := (u.terms.filter (·.power < 0)).map fun t => t.text (-t.power)
  let top := " ".intercalate above
  match below with
  | [] => top
  | [only] => (if top.isEmpty then "1" else top) ++ " / " ++ only
  | several => (if top.isEmpty then "1" else top) ++ " / (" ++ " ".intercalate several ++ ")"

/-- The text of a unit with the name of its dimension in braces, if it has one. -/
def textWithDimension (u : CompoundUnit R) : String :=
  match u.dimension.name? with
  | some name => if name == "dimensionless" then u.text else u.text ++ " \x7b" ++ name ++ "\x7d"
  | none => u.text

/-- The text of a unit as a value: quoted. -/
def quotedText (u : CompoundUnit R) : String :=
  "Unit(" ++ Text.quoted u.text ++ ")"

/-- Positive powers in front of negative ones. -/
def ordered (terms : List (UnitTerm R)) : List (UnitTerm R) :=
  terms.filter (0 < ·.power) ++ terms.filter (·.power < 0)

variable [Scalar R]

/-- The size of a unit in base units. -/
def factor (u : CompoundUnit R) : Except (Fault R) R :=
  u.terms.foldlM (fun x t => return x * (← Checked.powRat t.unit.factor t.power)) (Scalar.ofNat 1)

/-- A product on its way to canonical form: the scale set free so far, and the factors with distinct
keys. -/
structure Merging (R : Type) where
  scale : R
  terms : List (UnitTerm R)

namespace Merging

/-- Takes one more factor in. -/
def add (m : Merging R) (t : UnitTerm R) : Except (Fault R) (Merging R) := do
  if t.power = 0 then return m
  -- a plain number counts only by its size, whatever its name is
  else if t.unit.dimension.isOne then
    return { m with scale := m.scale * (← Checked.powRat t.unit.factor t.power) }
  else match m.terms.find? (·.unit.base == t.unit.base) with
    | none => return { m with terms := m.terms ++ [t] }
    -- of two units under one key the first stays, and their quotient goes into the scale
    | some first =>
      let ratio ← Checked.div t.unit.factor first.unit.factor
      let scale := m.scale * (← Checked.powRat ratio t.power)
      return ⟨scale, m.terms.map fun s =>
        if s.unit.base == t.unit.base then { s with power := s.power + t.power } else s⟩

/-- Drops what has cancelled; a product without a dimension is folded into the scale. -/
def finish (m : Merging R) : Except (Fault R) (CompoundUnit R × R) := do
  let unit : CompoundUnit R := ⟨ordered (m.terms.filter (·.power ≠ 0))⟩
  if !unit.terms.isEmpty && unit.isPlain then return (one, m.scale * (← unit.factor))
  else return (unit, m.scale)

end Merging

/-- The canonical unit of a list of factors, and the number that values must be multiplied by. -/
def canonicalize (terms : List (UnitTerm R)) : Except (Fault R) (CompoundUnit R × R) := do
  (← terms.foldlM Merging.add ⟨Scalar.ofNat 1, []⟩).finish

/-- The product of two units. -/
def multiply (u v : CompoundUnit R) : Except (Fault R) (CompoundUnit R × R) :=
  canonicalize (u.terms ++ v.terms)

/-- The quotient of two units. -/
def divide (u v : CompoundUnit R) : Except (Fault R) (CompoundUnit R × R) :=
  canonicalize (u.terms ++ v.terms.map fun t => { t with power := -t.power })

/-- A power of a unit. -/
def pow (u : CompoundUnit R) (k : R) : Except (Fault R) (CompoundUnit R) := do
  -- without factors there is nothing to raise, so any exponent will do
  if u.terms.isEmpty then return u
  else if !Scalar.isFinite k then throw (.parameter (.unitPower u.text k))
  else
    -- the factors have distinct keys, so their powers set no scale free
    let exponent ← Exponent.ofScalar k
    return (← canonicalize (u.terms.map fun t => { t with power := t.power * exponent })).1

/-- What values in one unit are multiplied by to become values in another. -/
def conversionFactor (source target : CompoundUnit R) : Except (Fault R) R := do
  if !source.sameDimension target then
    throw (.units (.convert source.text target.text source.dimension.text target.dimension.text))
  else Checked.div (← source.factor) (← target.factor)

/-- The product of base units with a given dimension. -/
def ofDimension (d : Dimension) : CompoundUnit R :=
  let bases := (Base.all.zip d.exponents.toList).filterMap fun (b, p) =>
    if p = 0 then none
    else (Vocabulary.lookup? b.symbol).map fun e => UnitTerm.mk b.symbol e.toUnit p
  let labels := d.labels.map fun (l, p) =>
    UnitTerm.mk ("'" ++ l) (UnitMeaning.label (UnitName.labelName l)).toUnit p
  ⟨ordered (bases ++ labels)⟩

/-- The unit in base units, and what values are multiplied by to become values in it. -/
def toBase (u : CompoundUnit R) : Except (Fault R) (CompoundUnit R × R) := do
  return (ofDimension u.dimension, ← u.factor)

/-- How far apart two sizes of equal units may be, relative to either of them. -/
def sizeTolerance : Rat := 1e-12

/-- Are two numbers equal up to the tolerance of sizes? -/
def closeSizes (x y : R) : Bool :=
  Scalar.eq x y ||
    (Scalar.isFinite x && Scalar.isFinite y &&
      (let distance := Scalar.apply .abs (y - x)
       let tolerance : R := Scalar.ofRat sizeTolerance
       Scalar.le distance (Scalar.apply .abs (tolerance * y)) ||
         Scalar.le distance (Scalar.apply .abs (tolerance * x))))

/-- Do two units have the same dimension and the same size? -/
def equal (u v : CompoundUnit R) : Except (Fault R) Bool := do
  if !u.sameDimension v then return false
  else return closeSizes (← u.factor) (← v.factor)

end CompoundUnit

end Ballpark
