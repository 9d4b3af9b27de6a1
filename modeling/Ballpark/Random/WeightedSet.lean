import Ballpark.Random.Source

/-!
# Weighted sets

A discrete distribution: one of some values, each with a probability in proportion to its weight. A
uniform number picks the first value whose cumulative share is not below it.
-/

namespace Ballpark.Sampler

variable {R S : Type} [Scalar R]

/-- The share of each weight together with all before it. -/
def cumulativeShares (weights : List R) : List R :=
  let total := Scalar.total weights
  Scalar.cumulative (weights.map (· / total))

/-- The place of the value that a uniform number picks. -/
def pickPlace (shares : List R) (u : R) : Nat :=
  -- the last place when rounding has left every share below the number
  min (shares.countP (Scalar.lt · u)) (shares.length - 1)

variable [RandomSource S R]

/-- Draws from the values in proportion to their weights. -/
def weighted (values weights : List R) (frame : SampleFrame R) : Draw R S (Quantity R) := do
  match values with
  | [] => throw (.parameter .noValues)
  | first :: _ =>
    Draw.require (values.length == weights.length) .unequalLengths
    Draw.requireFinite "Weighted" (values ++ weights)
    Draw.require (weights.all Scalar.isNonnegative) .negativeWeights
    Draw.require (Scalar.isPositive (Scalar.total weights)) .noWeight
    let n ← frame.resolve
    let shares := cumulativeShares weights
    let u ← Draw.uniformSample n
    frame.finish (u.map fun u => values.getD (pickPlace shares u) first)

end Ballpark.Sampler
