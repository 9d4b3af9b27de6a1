import Ballpark.Fault

/-!
# Exponents

Powers of units are fractions. A number that is used as an exponent is snapped to the nearest fraction
with a denominator of at most one thousand, found along the continued fraction of its exact value, so
that a third stays a third.
-/

namespace Ballpark.Exponent

/-- The largest denominator of a snapped exponent. -/
def maxDenominator : Nat := 1000

/-- A convergent of a continued fraction. -/
structure Convergent where
  num : Int
  den : Nat
  deriving DecidableEq, Repr

/-- The fraction that a convergent is. -/
def Convergent.value (c : Convergent) : Rat :=
  mkRat c.num c.den

/-- Goes along the continued fraction of `num / den` while the denominators stay within the bound;
gives the last two convergents that do. -/
def convergents (bound : Nat) (before last : Convergent) (num : Int) (den : Nat) :
    Convergent × Convergent :=
  if _h : den = 0 then (before, last)
  else
    let step := num / den
    let next : Convergent := ⟨before.num + step * last.num, before.den + step.toNat * last.den⟩
    if bound < next.den then (before, last)
    else convergents bound last next den (num % den).toNat
termination_by den
decreasing_by
  have h1 := Int.emod_lt_of_pos num (b := (den : Int)) (by omega)
  omega

/-- The fraction nearest to `x` among those with a denominator within the bound. -/
def limitDenominator (bound : Nat) (x : Rat) : Rat :=
  if x.den ≤ bound then x
  else
    let (before, last) := convergents bound ⟨0, 1⟩ ⟨1, 0⟩ x.num x.den
    let k := (bound - before.den) / last.den
    let between : Convergent := ⟨before.num + k * last.num, before.den + k * last.den⟩
    if (last.value - x).abs ≤ (between.value - x).abs then last.value else between.value

/-- The exponent nearest to a fraction. -/
def snap (x : Rat) : Rat :=
  limitDenominator maxDenominator x

/-- The exponent that a number is used as. -/
def ofScalar {R : Type} [Scalar R] (x : R) : Except (Fault R) Rat :=
  match Scalar.exact x with
  | .undefined => .error (.value .undefinedRatio)
  | .infinite _ => .error (.arithmetic .infiniteRatio)
  | .finite negative magnitude => .ok (snap (if negative then -magnitude else magnitude))

/-- The text of a fraction: its numerator, and its denominator if that is not one. -/
def fractionText (x : Rat) : String :=
  if x.den = 1 then toString x.num else toString x.num ++ "/" ++ toString x.den

end Ballpark.Exponent
