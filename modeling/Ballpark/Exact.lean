/-!
# Exact values

What a number of a computation stands for: nothing at all, an infinity, or an exact fraction with a
sign of its own, so that a negative zero is told from zero.
-/

namespace Ballpark

/-- The exact value of a number. -/
inductive Exact where
  /-- the result of an undefined operation -/
  | undefined
  /-- beyond every number, above or below -/
  | infinite (negative : Bool)
  /-- a fraction, given by its sign and its size -/
  | finite (negative : Bool) (magnitude : Rat)
  deriving DecidableEq, Repr

namespace Exact

/-- The fraction that a finite value is. -/
def toRat? : Exact → Option Rat
  | finite negative magnitude => some (if negative then -magnitude else magnitude)
  | _ => none

/-- The fraction that a finite value is, zero for the others. -/
def toRat (x : Exact) : Rat :=
  x.toRat?.getD 0

/-- The text of a value from the text of its size. -/
def text (size : Rat → String) : Exact → String
  | undefined => "nan"
  | infinite negative => if negative then "-inf" else "inf"
  | finite negative magnitude => (if negative then "-" else "") ++ size magnitude

end Exact

end Ballpark
