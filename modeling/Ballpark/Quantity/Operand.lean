import Ballpark.Quantity

/-!
# Operands

Beside a quantity, plain numbers and lists of them may stand as operands; they have no unit. An
exponent must be a number.
-/

namespace Ballpark

/-- What an operation may be given in place of a quantity. -/
inductive Operand (R : Type) where
  | quantity (q : Quantity R)
  | number (x : R)
  | numbers (xs : List R)
  deriving Repr

namespace Quantity

variable {R : Type} [Scalar R]

/-- The particles of a list, in the unit of a text. -/
def ofList (xs : List R) (unit : String) : Except (Fault R) (Quantity R) := do
  let (u, scale) ← CompoundUnit.ofText unit
  match Sample.ofList? xs with
  | none => throw (.parameter .emptySample)
  | some s => return ⟨.sample (s.map (· * scale)), u⟩

end Quantity

/-- The operators of operands. -/
inductive Arithmetic where
  | add | subtract | multiply | divide | power
  deriving DecidableEq, Repr

namespace Operand

variable {R : Type} [Scalar R]

/-- The quantity that an operand is. -/
def toQuantity : Operand R → Except (Fault R) (Quantity R)
  | quantity q => .ok q
  | number x => .ok (.plain x)
  | numbers xs => Quantity.ofList xs ""

/-- The text of an operand that is no quantity. -/
def text : Operand R → String
  | quantity q => q.quotedText
  | number x => numberText x
  | numbers xs => "[" ++ ", ".intercalate (xs.map numberText) ++ "]"

/-- The number that a quantity stands for as a parameter: its mean. Other operands are refused. -/
def parameter : Operand R → Except (Fault R) R
  | quantity q => .ok q.mean
  | other => .error (.parameter (.notQuantity other.text))

/-- The exponent that an operand is. -/
def exponent : Operand R → Except (Fault R) R
  | quantity q =>
    match q.value with
    | .scalar x => if q.hasUnit then .error (.parameter .exponentNotScalar) else .ok x
    | .sample _ => .error (.parameter .exponentNotScalar)
  | number x => .ok x
  | numbers _ => .error .wrongSort

/-- A power of an operand; only quantities have powers. -/
def pow (base exponent : Operand R) : Except (Fault R) (Quantity R) := do
  match base with
  | quantity q => q.pow (← exponent.exponent)
  | _ => throw .wrongSort

/-- Two operands combined. -/
def combine (op : Arithmetic) (a b : Operand R) : Except (Fault R) (Quantity R) := do
  match op with
  | .power => a.pow b
  | .add => (← a.toQuantity).add (← b.toQuantity)
  | .subtract => (← a.toQuantity).subtract (← b.toQuantity)
  | .multiply => (← a.toQuantity).multiply (← b.toQuantity)
  | .divide => (← a.toQuantity).divide (← b.toQuantity)

/-- Are two operands equal? A quantity never equals what is none. -/
def equal : Operand R → Operand R → Except (Fault R) Bool
  | quantity a, quantity b => a.equal b
  | number x, number y => .ok (Scalar.eq x y)
  | numbers xs, numbers ys =>
    .ok (xs.length == ys.length && (xs.zip ys).all fun p => Scalar.eq p.1 p.2)
  | _, _ => .ok false

end Operand

end Ballpark
