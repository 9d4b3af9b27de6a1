import Ballpark.Quantity

/-!
# Scores of forecasts

The continuous ranked probability score of a sample `x` against an observation `y` is the mean distance
of the particles from `y`, its reliability, less half the mean distance of the particles from each
other, its resolution. Both are computed on the sorted sample: the resolution as a weighted sum, the
reliability from prefix sums that are split where the observation would stand.
-/

namespace Ballpark.Score

variable {R : Type} [Scalar R]

/-- The weighted terms of a sorted sample of `n` particles, from place `i` on: a particle counts
`2 i - n + 1` times. -/
def weightedTerms (n : Nat) : Nat → List R → List R
  | _, [] => []
  | i, x :: xs =>
    (Scalar.ofNat 2 * Scalar.ofNat i - Scalar.ofNat n + Scalar.ofNat 1) * x :: weightedTerms n (i + 1) xs

/-- The mean distance of the particles of a sorted sample from each other. -/
def meanDifference (sorted : List R) : R :=
  let n := sorted.length
  Scalar.total (weightedTerms n 0 sorted) * Scalar.ofNat 2 / Scalar.ofNat (n * n)

/-- How many of the sorted particles are not above `y`, looking between two places. -/
def insertionPlace (sorted : Array R) (y : R) (low high : Nat) : Nat :=
  if _h : low < high then
    let middle := low + (high - low) / 2
    match sorted[middle]? with
    | some x => if Scalar.sortsBefore x y then insertionPlace sorted y (middle + 1) high
      else insertionPlace sorted y low middle
    | none => low
  else low
termination_by high - low

/-- The sums of the first particles: of none, of one, and so on. -/
def prefixSums (sorted : List R) : Array R :=
  (Scalar.ofNat 0 :: Scalar.cumulative sorted).toArray

/-- The mean distance of sorted particles from an observation, given the sums of their beginnings. -/
def meanDistance (sorted sums : Array R) (y : R) : R :=
  let n := sorted.size
  let k := insertionPlace sorted y 0 n
  let sumBelow := sums.getD k y
  let sumAll := sums.getD n y
  let below := y * Scalar.ofNat k - sumBelow
  let above := (sumAll - sumBelow) - y * Scalar.ofNat (n - k)
  (below + above) / Scalar.ofNat n

/-- The mean distance of sorted particles from each observation. -/
def meanDistances (sorted : List R) (observations : Value R) : Value R :=
  let particles := sorted.toArray
  let sums := prefixSums sorted
  observations.map (meanDistance particles sums)

/-- The two terms of a score; the reliability is exact if the observation is. -/
structure Components (R : Type) where
  reliability : Value R
  resolution : R

/-- The score that two terms make. -/
def Components.score (c : Components R) : Value R :=
  c.reliability.map (· - c.resolution)

/-- The scales that forecasts are scored on. -/
inductive Scale where
  | plain
  /-- the natural logarithm -/
  | log
  /-- ten times the decimal logarithm -/
  | decibel
  deriving DecidableEq, Repr

namespace Scale

/-- How messages name a scale that refuses a particle. -/
def name : Scale → String
  | plain => "crps"
  | log => "logcrps"
  | decibel => "dbcrps"

/-- A number on a scale. -/
def apply : Scale → R → R
  | plain, x => x
  | log, x => Scalar.apply .log x
  | decibel, x => Scalar.ofNat 10 * Scalar.apply .log10 x

/-- A value on a scale; a logarithm needs particles above zero. -/
def transform (scale : Scale) (v : Value R) : Except (Fault R) (Value R) :=
  match scale with
  | plain => .ok v
  | _ => match v.particles.toList.find? fun x => Scalar.le x (Scalar.ofNat 0) with
    | some x => .error (.notPositive scale.name x)
    | none => .ok (v.map scale.apply)

end Scale

/-- The terms of the score of a forecast. -/
def components (scale : Scale) (forecast observation : Quantity R) :
    Except (Fault R) (Components R) := do
  if !forecast.unit.sameDimension observation.unit then
    throw (.units (.scores forecast.unit.text observation.unit.text))
  let observed ← observation.convert forecast.unit
  let x ← scale.transform forecast.value
  let y ← scale.transform observed.value
  let sorted := x.particles.sorted
  return ⟨meanDistances sorted y, Scalar.ofRat 0.5 * meanDifference sorted⟩

/-- The parts of a score that a program may ask for. -/
inductive Part where
  | score | reliability | resolution
  deriving DecidableEq, Repr

/-- A part of the score of a forecast: on the plain scale in the forecast's unit, else a plain
number. -/
def evaluate (scale : Scale) (part : Part) (forecast observation : Quantity R) :
    Except (Fault R) (Quantity R) := do
  let c ← components scale forecast observation
  let unit : CompoundUnit R := match scale with
    | .plain => forecast.unit
    | _ => .one
  return match part with
    | .score => ⟨c.score, unit⟩
    | .reliability => ⟨c.reliability, unit⟩
    | .resolution => ⟨.scalar c.resolution, unit⟩

end Ballpark.Score
