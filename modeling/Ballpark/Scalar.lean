import Ballpark.Decimal
import Ballpark.Exact

/-!
# Numbers to compute with

Everything that computes is written over a class `Scalar` of number types, so that one definition runs
on machine numbers and can be read over exact ones. A number type offers arithmetic that never fails,
a comparison, the elementary functions, and a way from and to exact fractions.
-/

namespace Ballpark

/-- A function of one number. -/
inductive Elementary where
  | abs | sign | floor | ceil | round | trunc
  | sqrt | cbrt | exp | expm1 | log | log10 | log2 | log1p
  | sin | cos | tan | asin | acos | atan
  | sinh | cosh | tanh | asinh | acosh | atanh
  deriving DecidableEq, Repr

/-- A type of numbers. -/
class Scalar (R : Type) extends Add R, Sub R, Mul R, Div R, Neg R where
  /-- the number nearest to a fraction -/
  ofRat : Rat → R
  /-- the number nearest to a literal -/
  ofDecimal : Decimal → R
  /-- the exact value of a number -/
  exact : R → Exact
  /-- is the number neither undefined nor infinite? -/
  isFinite : R → Bool
  /-- equality of values, which an undefined number does not even have with itself -/
  eq : R → R → Bool
  /-- strict order of values -/
  lt : R → R → Bool
  /-- order of values -/
  le : R → R → Bool
  /-- a power, undefined or infinite where there is none -/
  pow : R → R → R
  /-- a function of one number -/
  apply : Elementary → R → R
  /-- the angle of the point `(x, y)`, given `y` and `x` -/
  atan2 : R → R → R
  /-- the length of the hypotenuse -/
  hypot : R → R → R
  /-- the inverse of the error function -/
  erfInv : R → R
  /-- half a turn -/
  pi : R
  /-- the base of the natural logarithm -/
  euler : R

namespace Scalar

variable {R : Type} [Scalar R]

/-- A whole number. -/
def ofNat (n : Nat) : R :=
  ofRat n

/-- A whole number with a sign. -/
def ofInt (n : Int) : R :=
  ofRat n

/-- Is the number the result of an undefined operation? -/
def isUndefined (x : R) : Bool :=
  !eq x x

/-- Is the number zero? -/
def isZero (x : R) : Bool :=
  eq x (ofRat 0)

/-- Is the number above zero? -/
def isPositive (x : R) : Bool :=
  lt (ofRat 0) x

/-- Is the number zero or above? -/
def isNonnegative (x : R) : Bool :=
  le (ofRat 0) x

/-- Is the number an infinity? -/
def isInfinite (x : R) : Bool :=
  !isFinite x && !isUndefined x

/-- The exact fraction of a finite number, zero for any other. -/
def toRat (x : R) : Rat :=
  (exact x).toRat

/-- The smaller of two numbers, the second if they are equal; undefined if one of them is. -/
def minimum (x y : R) : R :=
  if isUndefined x then x else if lt x y then x else y

/-- The larger of two numbers, the second if they are equal; undefined if one of them is. -/
def maximum (x y : R) : R :=
  if isUndefined x then x else if lt y x then x else y

/-- The order that samples are sorted by: undefined numbers come last. -/
def sortsBefore (x y : R) : Bool :=
  isUndefined y || le x y

/-- A truth value as a number. -/
def ofBool (b : Bool) : R :=
  if b then ofRat 1 else ofRat 0

end Scalar

end Ballpark
