import Ballpark.Builtin.Distribution
import Ballpark.Builtin.Math

/-!
# Builtin functions

What a program may call without defining it: distributions, which draw from the random source, and
functions of quantities.
-/

namespace Ballpark

/-- A function that every program may call. -/
inductive Builtin where
  | distribution (d : Distribution)
  | math (f : MathFunction)
  deriving DecidableEq, Repr

namespace Builtin

/-- The names of all builtin functions. -/
def names : List String :=
  Distribution.table.map (·.1) ++ MathFunction.table.map (·.1)

/-- The builtin function of a name. -/
def ofName? (name : String) : Option Builtin :=
  match Distribution.ofName? name with
  | some d => some (distribution d)
  | none => (MathFunction.ofName? name).map math

variable {R S : Type} [Scalar R] [RandomSource S R]

/-- The call of a builtin function; none if it does not take so many arguments. -/
def call? (confidence : Written R) (frame : SampleFrame R) (arguments : List (Quantity R)) :
    Builtin → Option (Draw R S (Quantity R))
  | distribution d => d.sampler? confidence frame (arguments.map (·.mean))
  | math f => (f.operation.call? arguments).map Draw.ofExcept

end Builtin

end Ballpark
