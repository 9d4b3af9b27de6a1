import Ballpark.Decimal
import Ballpark.Decimal.Rounding
import Ballpark.Exact

/-!
# The grid of 64-bit floating-point numbers

A finite number is `mantissa · 2 ^ power` with at most 53 bits of mantissa and a power of at least
−1074. This module rounds exact fractions to that grid, a half to the even neighbour, and reads the
exact value of a machine number from its bits.
-/

namespace Ballpark.Binary64

/-- A power of two. -/
def twoPow (n : Nat) : Nat :=
  Nat.pow 2 n

/-- The largest `e` with `2 ^ e ≤ num / den`, both positive. -/
def floorLog2 (num den : Nat) : Int :=
  let e : Int := (Nat.log2 num : Int) - Nat.log2 den
  let fits := if e < 0 then den ≤ num * twoPow e.natAbs else den * twoPow e.natAbs ≤ num
  if fits then e else e - 1

/-- A number of the grid, without a sign: `mantissa · 2 ^ power`. -/
structure Point where
  mantissa : Nat
  power : Int
  deriving DecidableEq, Repr

/-- The point nearest to `q`, a half to the even mantissa; sizes beyond the grid keep their power. -/
def nearest (q : Rat) : Point :=
  let num := q.num.natAbs
  if num == 0 then ⟨0, 0⟩
  else
    let power := max (floorLog2 num q.den - 52) (-1074)
    let mantissa :=
      if power < 0 then Decimal.roundDiv (num * twoPow power.natAbs) q.den
      else Decimal.roundDiv num (q.den * twoPow power.natAbs)
    ⟨mantissa, power⟩

/-- The exact value of a point. -/
def Point.value (p : Point) : Rat :=
  if p.power < 0 then mkRat p.mantissa (twoPow p.power.natAbs)
  else ((p.mantissa * twoPow p.power.natAbs : Nat) : Rat)

/-- The value on the grid nearest to a size. -/
def roundRat (q : Rat) : Rat :=
  (nearest q).value

/-- The machine number nearest to a fraction. -/
def ofRat (q : Rat) : Float :=
  let p := nearest q
  let x := (Float.ofNat p.mantissa).scaleB p.power
  if q.num < 0 then -x else x

/-- The machine number nearest to a literal; a literal far outside the grid is not written out. -/
def ofDecimal (d : Decimal) : Float :=
  let size : Float :=
    if d.digits == 0 then 0
    else
      let place := (Decimal.digitCount d.digits : Int) + d.exponent
      if 320 < place then 1 / 0
      else if place < -340 then 0
      else ofRat d.magnitude
  if d.negative then -size else size

/-- The exact value of a machine number. -/
def exact (x : Float) : Exact :=
  let bits := x.toBits.toNat
  let negative := bits / twoPow 63 == 1
  let power : Nat := bits / twoPow 52 % twoPow 11
  let fraction := bits % twoPow 52
  if power = 2047 then (if fraction == 0 then .infinite negative else .undefined)
  else if power = 0 then .finite negative (Point.value ⟨fraction, -1074⟩)
  else .finite negative (Point.value ⟨fraction + twoPow 52, (power : Int) - 1075⟩)

end Ballpark.Binary64
