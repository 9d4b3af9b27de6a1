/-!
# Rounding to decimal places

Rounding of an exact quotient to the nearest whole number, a half to the even neighbour, and from it
rounding to a decimal place and to a number of significant figures.
-/

namespace Ballpark.Decimal

/-- A power of ten. -/
def tenPow (n : Nat) : Nat :=
  Nat.pow 10 n

/-- The whole number nearest to `num / den`; a half goes to the even neighbour. -/
def roundDiv (num den : Nat) : Nat :=
  let q := num / den
  let r := num % den
  if 2 * r < den then q
  else if den < 2 * r then q + 1
  else if q % 2 == 0 then q else q + 1

/-- `q · 10 ^ places` as a quotient of whole numbers, for a `q` that is not negative. -/
def shifted (q : Rat) (places : Int) : Nat × Nat :=
  if places < 0 then (q.num.natAbs, q.den * tenPow places.natAbs)
  else (q.num.natAbs * tenPow places.natAbs, q.den)

/-- The whole number nearest to `q · 10 ^ places`. -/
def roundAt (q : Rat) (places : Int) : Nat :=
  let s := shifted q places
  roundDiv s.1 s.2

/-- The whole part of `q · 10 ^ places`. -/
def floorAt (q : Rat) (places : Int) : Nat :=
  let s := shifted q places
  s.1 / s.2

/-- How many decimal digits a number has; zero has one. -/
def digitCount (n : Nat) : Nat :=
  if n < 10 then 1 else digitCount (n / 10) + 1

/-- The largest `e` with `10 ^ e ≤ q`, for a positive `q`. -/
def floorLog10 (q : Rat) : Int :=
  let num := q.num.natAbs
  if q.den ≤ num then (digitCount (num / q.den) : Int) - 1
  else
    let places := digitCount (q.den / num)
    if q.den == num * tenPow (places - 1) then 1 - (places : Int) else -(places : Int)

/-- A number in significant figures: its digits as one number and the place of the first. -/
structure Figures where
  digits : Nat
  place : Int
  deriving DecidableEq, Repr

/-- A positive number rounded to `figures` significant figures. -/
def significant (figures : Nat) (q : Rat) : Figures :=
  let place := floorLog10 q
  let digits := roundAt q (figures - 1 - place)
  -- rounding may carry over to one figure more
  if digits == tenPow figures then ⟨tenPow (figures - 1), place + 1⟩ else ⟨digits, place⟩

/-- `digits · 10 ^ -places` as an exact value. -/
def atPlace (digits : Nat) (places : Int) : Rat :=
  if places < 0 then ((digits * tenPow places.natAbs : Nat) : Rat)
  else mkRat digits (tenPow places.natAbs)

end Ballpark.Decimal
