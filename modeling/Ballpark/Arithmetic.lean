import Ballpark.Exponent

/-!
# Checked arithmetic

Units and parameters are computed with operations that refuse what has no result: a quotient by zero,
and a power that is too large or that raises zero to a negative exponent. Particles are computed with
the plain operations of the number type instead.
-/

namespace Ballpark.Checked

variable {R : Type} [Scalar R]

/-- A quotient. -/
def div (x y : R) : Except (Fault R) R :=
  if Scalar.isZero y then .error (.arithmetic .divisionByZero) else .ok (x / y)

/-- A power. -/
def pow (x y : R) : Except (Fault R) R :=
  if Scalar.isZero x && Scalar.lt y (Scalar.ofNat 0) then .error (.arithmetic .zeroToNegative)
  else
    let r := Scalar.pow x y
    if Scalar.isInfinite r && Scalar.isFinite x && Scalar.isFinite y then
      .error (.arithmetic .overflow)
    else .ok r

/-- A number that is not beyond every number; else a fault. -/
def withinRange (fault : ArithmeticFault) (x : R) : Except (Fault R) R :=
  if Scalar.isInfinite x then .error (.arithmetic fault) else .ok x

/-- The number of a fraction. -/
def ofRat (q : Rat) : Except (Fault R) R :=
  withinRange .hugeFraction (Scalar.ofRat q)

/-- The number of a whole number. -/
def ofInt (n : Int) : Except (Fault R) R :=
  withinRange .hugeWhole (Scalar.ofInt n)

/-- A power with a fraction as exponent. -/
def powRat (x : R) (q : Rat) : Except (Fault R) R := do
  pow x (← ofRat q)

/-- The logarithm of a number that must be positive. -/
def log (x : R) : Except (Fault R) R :=
  if Scalar.isPositive x || Scalar.isUndefined x then .ok (Scalar.apply .log x)
  else .error (.value .mathDomain)

/-- The square root of a number that must not be negative. -/
def sqrt (x : R) : Except (Fault R) R :=
  if Scalar.isNonnegative x || Scalar.isUndefined x then .ok (Scalar.apply .sqrt x)
  else .error (.value .mathDomain)

end Ballpark.Checked
