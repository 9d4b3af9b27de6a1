import Ballpark.Decimal.Notation

/-!
# The shortest text of a number

The fewest digits that read back as the number. Which decimals read back is a parameter: a test on
exact values. For each number of figures the two neighbours of the value on that decimal grid are
tried; the first grid with a hit wins, and of two hits the nearer.
-/

namespace Ballpark.Decimal

/-- The most figures that a number ever needs. -/
def maxFigures : Nat := 17

/-- The neighbour of `q` with the given number of figures that reads back, the nearer one if both do. -/
def neighbour? (reads : Rat → Bool) (q : Rat) (figures : Nat) : Option Figures :=
  let place := floorLog10 q
  let places := (figures : Int) - 1 - place
  let low := floorAt q places
  let lowReads := reads (atPlace low places)
  let highReads := reads (atPlace (low + 1) places)
  if lowReads && (!highReads || roundAt q places == low) then some ⟨low, place⟩
  else if highReads then some ⟨low + 1, place⟩
  else none

/-- The first neighbour that reads back, trying up to `more` further figures. -/
def shortestFrom (reads : Rat → Bool) (q : Rat) (figures : Nat) : Nat → Figures
  | 0 => significant figures q
  | more + 1 => match neighbour? reads q figures with
    | some f => ⟨f.digits * tenPow (maxFigures - figures), f.place⟩
    | none => shortestFrom reads q (figures + 1) more

/-- The digits of the shortest text, with zeros behind them up to the most figures. -/
def shortestFigures (reads : Rat → Bool) (q : Rat) : Figures :=
  let f := shortestFrom reads q 1 maxFigures
  if f.digits == tenPow maxFigures then ⟨tenPow (maxFigures - 1), f.place + 1⟩ else f

/-- The shortest text of a size: positional from 10⁻⁴ up to 10¹⁶ with at least one decimal, else with a
power of ten. -/
def shortest (reads : Rat → Bool) (q : Rat) : String :=
  if q.num == 0 then "0.0"
  else
    let f := shortestFigures reads q
    if -4 ≤ f.place && f.place < 16 then
      let places := (16 - f.place).toNat
      let text := dropZeros (pointed places (padded (places + 1) f.digits))
      String.ofList (if text.getLast? == some '.' then text ++ ['0'] else text)
    else
      String.ofList (dropEndZeros (pointed 16 (padded 17 f.digits)) ++ powerText f.place)

end Ballpark.Decimal
