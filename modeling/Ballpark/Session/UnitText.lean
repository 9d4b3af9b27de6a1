import Ballpark.Session
import Ballpark.Unit.Reading

/-!
# Units in a session

A unit text may mention labels. A label that the program has defined as a unit stands for its
definition; one that it has not defined is a unit of its own.
-/

namespace Ballpark.Session

variable {R S : Type} [Scalar R]

/-- Takes the definition of a factor in, if it has one. -/
def substitute (units : Bindings (Quantity R)) (q : Quantity R) (t : UnitTerm R) :
    Except (Fault R) (Quantity R) := do
  match units.get? t.unit.base with
  | none => return q
  | some definition => q.multiply (← definition.pow (← Checked.ofRat t.power))

/-- One of the unit of a text. -/
def unitQuantity (units : Bindings (Quantity R)) (text : String) : Except (Fault R) (Quantity R) := do
  let (unit, scale) ← CompoundUnit.ofText text
  -- factors without a definition stay as they are, and then each definition is multiplied in
  let undefinedTerms := unit.terms.filter fun t => !units.contains t.unit.base
  unit.terms.foldlM (substitute units) ⟨.scalar scale, ⟨undefinedTerms⟩⟩

/-- The text of a unit that is written; an empty text is no unit. -/
def written? (unit : Option String) : Option String :=
  unit.filter (!·.isEmpty)

/-- A value in the unit of a text. -/
def inUnit (units : Bindings (Quantity R)) (q : Quantity R) (unit : Option String) :
    Except (Fault R) (Quantity R) := do
  match written? unit with
  | none => return q
  | some text => q.multiply (← unitQuantity units text)

/-- A literal with an optional unit. -/
def literal (units : Bindings (Quantity R)) (x : R) (unit : Option String) :
    Except (Fault R) (Quantity R) := do
  match written? unit with
  | none => return .plain x
  | some text => return (← unitQuantity units text).map (· * x)

/-- A quantity in the unit of a conversion's target. -/
def convertTo (units : Bindings (Quantity R)) (q : Quantity R) (target : String) :
    Except (Fault R) (Quantity R) := do
  let target := Text.trimText target
  if target == "SI" then q.toBase
  else match units.get? target with
    | some definition =>
      -- the value in definitions, with the label as its unit
      let ratio ← (← q.convert definition.unit).divide definition
      return ⟨ratio.value, (← CompoundUnit.ofText target).1⟩
    | none => q.convertTo target

/-- One of a unit that `count` of a quantity make. -/
def unitOf (name : String) (count : R) (q : Quantity R) : Except (Fault R) (Quantity R) :=
  if Scalar.isZero count then .error (.parameter (.unitCount name))
  else if Scalar.eq count (Scalar.ofNat 1) then .ok q
  else q.divide (.plain count)

end Ballpark.Session
