import Ballpark.Comparison
import Ballpark.Decimal

/-!
# Syntax trees

The tree of a program. Units stay the texts that were written; what they mean is settled when the tree
is evaluated, for a program may define units of its own.
-/

namespace Ballpark

/-- The operators between two operands. -/
inductive BinaryOperator where
  | add | subtract | multiply | divide | power
  | compare (c : Comparison)
  /-- an operator that no program can write -/
  | other (text : String)
  deriving DecidableEq, Repr

/-- The operators in front of an operand. -/
inductive UnaryOperator where
  | negate | plus
  /-- an operator that no program can write -/
  | other (text : String)
  deriving DecidableEq, Repr

namespace BinaryOperator

/-- The text of an operator. -/
def text : BinaryOperator → String
  | add => "+" | subtract => "-" | multiply => "*" | divide => "/" | power => "^"
  | compare c => c.text
  | other t => t

/-- The operator that a text writes. -/
def ofText (text : String) : BinaryOperator :=
  match text with
  | "+" => add | "-" => subtract | "*" => multiply | "/" => divide | "^" | "**" => power
  | t => match Comparison.ofText? t with
    | some c => compare c
    | none => other t

end BinaryOperator

namespace UnaryOperator

/-- The text of an operator. -/
def text : UnaryOperator → String
  | negate => "-" | plus => "+" | other t => t

/-- The operator that a text writes. -/
def ofText (text : String) : UnaryOperator :=
  match text with
  | "-" => negate | "+" => plus | t => other t

end UnaryOperator

/-- A syntax tree. -/
inductive Node where
  /-- a number with an optional unit -/
  | number (value : Decimal) (unit : Option String)
  /-- a number whose written digits tell how certain it is -/
  | sigFig (literal : String) (unit : Option String)
  | identifier (name : String)
  /-- one of a unit -/
  | unit (text : String)
  | binary (op : BinaryOperator) (left right : Node)
  | unary (op : UnaryOperator) (operand : Node)
  /-- `left to right`, with an optional unit for both -/
  | range (left right : Node) (unit : Option String)
  /-- `left .. right` -/
  | uniformRange (left right : Node) (unit : Option String)
  /-- `mean +- spread` -/
  | normalRange (mean spread : Node) (unit : Option String)
  /-- `successes out of total` -/
  | betaOf (successes total : Node)
  /-- `pro against contra` -/
  | betaAgainst (pro contra : Node)
  /-- values with their weights, in braces -/
  | weightedSet (values weights : List Node) (unit : Option String)
  /-- a factor known up to some percent -/
  | percentTwiddle (value : Decimal)
  /-- a factor known up to some decibels -/
  | decibelTwiddle (value : Decimal)
  /-- `expression as target` -/
  | conversion (expression : Node) (target : String)
  | call (name : String) (arguments : List Node)
  | letBinding (name : String) (value body : Node)
  | ifExpression (condition yes no : Node)
  | assignment (name : String) (value : Node)
  /-- `count 'name = value` -/
  | unitDefinition (name : String) (count : Decimal) (value : Node)
  | functionDefinition (name : String) (parameters : List String) (body : Node)
  | program (statements : List Node)
  /-- something that is no node of a program -/
  | foreign (kind : String)
  deriving Repr, Inhabited

namespace Node

/-- The name of a node's kind. -/
def kind : Node → String
  | number .. => "Number"
  | sigFig .. => "SigFigNumber"
  | identifier _ => "Identifier"
  | unit _ => "UnitExpression"
  | binary .. => "BinaryOp"
  | unary .. => "UnaryOp"
  | range .. => "Range"
  | uniformRange .. => "UniformRange"
  | normalRange .. => "NormalRange"
  | betaOf .. => "BetaOf"
  | betaAgainst .. => "BetaAgainst"
  | weightedSet .. => "WeightedSet"
  | percentTwiddle _ => "PercentTwiddle"
  | decibelTwiddle _ => "DbTwiddle"
  | conversion .. => "Conversion"
  | call .. => "FunctionCall"
  | letBinding .. => "LetBinding"
  | ifExpression .. => "IfExpression"
  | assignment .. => "Assignment"
  | unitDefinition .. => "UnitDefinition"
  | functionDefinition .. => "FunctionDefinition"
  | program _ => "Program"
  | foreign k => k

/-- The name that an assignment binds. -/
def assignedName? : Node → Option String
  | assignment name _ => some name
  | _ => none

end Node

end Ballpark
