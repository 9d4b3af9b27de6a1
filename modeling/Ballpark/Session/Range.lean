import Ballpark.Decimal.LastPlace
import Ballpark.Session.UnitText

/-!
# Bounds of ranges

A range has two bounds and one unit, which may be written behind both or be taken from one of them.
Where the bounds are uncertain their means count.
-/

namespace Ballpark.Session

variable {R S : Type} [Scalar R]

/-- The bounds of a range as numbers of its unit. -/
structure Bounds (R : Type) where
  low : R
  high : R
  unit : CompoundUnit R

/-- A bound as a number of a unit; one without a unit is multiplied by a scale. -/
def boundIn (unit : CompoundUnit R) (scale : R) (q : Quantity R) : Except (Fault R) R := do
  if q.hasUnit then return (← q.convert unit).mean else return q.mean * scale

/-- Both bounds in a unit that is written behind them. -/
def trailingBounds (units : Bindings (Quantity R)) (low high : Quantity R) (unit : String) :
    Except (Fault R) (Bounds R) := do
  let trailing ← unitQuantity units unit
  let scale := trailing.mean
  return ⟨← boundIn trailing.unit scale low, ← boundIn trailing.unit scale high, trailing.unit⟩

/-- The counting word that a literal has in place of a unit. -/
def literalCount? : Node → Option Rat
  | .number _ (some unit) | .sigFig _ (some unit) => Vocabulary.countingWord? (Text.trimText unit)
  | _ => none

/-- The bounds of `low to high` when no unit is written behind them. A unit of the upper bound holds for
both; if neither has one, a counting word of the upper literal does. -/
def ownBounds (highNode : Node) (low high : Quantity R) : Except (Fault R) (Bounds R) := do
  if low.hasUnit then
    -- a unit on the lower bound alone is not lent to the upper one
    if !high.hasUnit then throw .mixedUnits
    else if !low.unit.sameDimension high.unit then
      throw (.units (.bounds low.unit.text high.unit.text))
    else return ⟨(← low.convert high.unit).mean, high.mean, high.unit⟩
  else if high.hasUnit then return ⟨low.mean, high.mean, high.unit⟩
  else
    let scaled := match literalCount? highNode with
      | some count => low.mean * Scalar.ofRat count
      | none => low.mean
    return ⟨scaled, high.mean, .one⟩

/-- The bounds of `low to high`. -/
def strictBounds (units : Bindings (Quantity R)) (highNode : Node) (low high : Quantity R)
    (unit : Option String) : Except (Fault R) (Bounds R) :=
  match written? unit with
  | some text => trailingBounds units low high text
  | none => ownBounds highNode low high

/-- The bounds of the looser forms: a bound without a unit is in the unit written behind both, else in
that of the preferred bound, else in that of the other. -/
def looseBounds (units : Bindings (Quantity R)) (first second : Quantity R) (preferSecond : Bool)
    (unit : Option String) : Except (Fault R) (Bounds R) := do
  match written? unit with
  | some text => trailingBounds units first second text
  | none =>
    let (preferred, other) := if preferSecond then (second, first) else (first, second)
    let unit := if preferred.hasUnit then preferred.unit else other.unit
    let one : R := Scalar.ofNat 1
    return ⟨← boundIn unit one first, ← boundIn unit one second, unit⟩

/-- The half width of a literal's last place. -/
def lastPlaceHalf (text : String) : Except (Fault R) R := do
  let place ← Checked.ofInt (Decimal.lastPlace text)
  return Scalar.ofRat 0.5 * (← Checked.pow (Scalar.ofNat 10) place)

/-- The largest power of ten that a number can be. -/
def maxPlace : Int := 308

/-- The bounds of a literal whose last place is uncertain. -/
def literalBounds (text : String) : Except (Fault R) (R × R) := do
  let value : R := Scalar.ofDecimal (Decimal.ofText text)
  if !Scalar.isFinite value || maxPlace < Decimal.lastPlace text then
    throw (.parameter (.literalRange text))
  else
    let half ← lastPlaceHalf text
    return (value - half, value + half)

end Ballpark.Session
