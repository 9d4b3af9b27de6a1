import Ballpark.Random.Source

/-!
# Samplers given by an interval

Normal, lognormal and uniform numbers. The bounds of a normal or lognormal interval hold the
`confidence` of the probability between them, so that at nine tenths they stand at the fifth and the
ninety-fifth percentile.
-/

namespace Ballpark.Sampler

variable {R S : Type} [Scalar R]

/-- The bound of a central interval of the standard normal that holds `confidence`. -/
def centralBound (confidence : Written R) : Except (Fault R) R :=
  let mass := confidence.toScalar
  if Scalar.isPositive mass && Scalar.lt mass (Scalar.ofNat 1) then
    .ok (Scalar.apply .sqrt (Scalar.ofNat 2) * Scalar.erfInv mass)
  else .error (.parameter (.confidence confidence.text))

variable [RandomSource S R]

/-- Lognormal numbers with a central interval from `a` to `b`. -/
def lognormal (a b : R) (confidence : Written R) (frame : SampleFrame R) : Draw R S (Quantity R) := do
  Draw.requireFinite "Lognormal" [a, b]
  Draw.require (Scalar.isPositive a && Scalar.isPositive b) (.boundsNotPositive a b)
  Draw.require (Scalar.lt a b) (.boundsOrder "Lognormal" a b)
  let n ← frame.resolve
  let center ← Draw.ofExcept do Checked.log (← Checked.sqrt (a * b))
  let spread ← Draw.ofExcept do
    Checked.div (← Checked.log (← Checked.sqrt (b / a))) (← centralBound confidence)
  let z ← Draw.normalSample n
  frame.finish (z.map fun z => Scalar.apply .exp (center + spread * z))

/-- Normal numbers with a central interval from `a` to `b`. -/
def normal (a b : R) (confidence : Written R) (frame : SampleFrame R) : Draw R S (Quantity R) := do
  Draw.requireFinite "Normal" [a, b]
  Draw.require (Scalar.lt a b) (.boundsOrder "Normal" a b)
  let n ← frame.resolve
  let mean := (a + b) / Scalar.ofNat 2
  let spread ← Draw.ofExcept do
    Checked.div (Scalar.ofRat 0.5 * (b - a)) (← centralBound confidence)
  let z ← Draw.normalSample n
  frame.finish (z.map fun z => mean + spread * z)

/-- Normal numbers with a given mean and deviation. -/
def plusMinus (mean deviation : R) (frame : SampleFrame R) : Draw R S (Quantity R) := do
  Draw.requireFinite "Plusminus" [mean, deviation]
  Draw.require (Scalar.isNonnegative deviation) (.negativeDeviation deviation)
  let n ← frame.resolve
  let z ← Draw.normalSample n
  frame.finish (z.map fun z => mean + deviation * z)

/-- Draws uniform numbers from `a` up to but not including `b`. -/
def uniformBetween (a b : R) (n : SampleCount) : Draw R S (Sample R) := do
  if Scalar.isFinite (b - a) then return (← Draw.uniformSample n).map fun u => a + (b - a) * u
  else throw (.arithmetic .intervalTooWide)

/-- Uniform numbers from `a` to `b`. -/
def uniform (a b : R) (frame : SampleFrame R) : Draw R S (Quantity R) := do
  Draw.requireFinite "Uniform" [a, b]
  Draw.require (Scalar.lt a b) (.boundsOrder "Uniform" a b)
  let n ← frame.resolve
  frame.finish (← uniformBetween a b n)

/-- Waiting times at a given rate. -/
def exponential (rate : R) (frame : SampleFrame R) : Draw R S (Quantity R) := do
  Draw.requireFinite "Exponential" [rate]
  Draw.require (Scalar.isPositive rate) (.notPositive "Exponential rate" rate)
  let n ← frame.resolve
  let u ← Draw.uniformSample n
  frame.finish (u.map fun u => -Scalar.apply .log1p (-u) / rate)

/-- Waiting times with a given mean. -/
def exponentialMean (mean : R) (frame : SampleFrame R) : Draw R S (Quantity R) := do
  Draw.require (Scalar.isPositive mean) (.notPositive "Exponential mean" mean)
  exponential (Scalar.ofNat 1 / mean) frame

/-- An interval of unknown shape: lognormal if both bounds are above zero, else normal. -/
def interval (a b : R) (confidence : Written R) (frame : SampleFrame R) : Draw R S (Quantity R) :=
  if Scalar.isPositive a && Scalar.isPositive b then lognormal a b confidence frame
  else normal a b confidence frame

/-- A factor near one, known up to some percent. -/
def percent (percentage : R) (confidence : Written R) (count : Except (Fault R) SampleCount) :
    Draw R S (Quantity R) := do
  Draw.require (Scalar.isPositive percentage) (.notPositive "Percentage" percentage)
  let top := Scalar.ofNat 1 + percentage / Scalar.ofNat 100
  lognormal (Scalar.ofNat 1 / top) top confidence (.plain count)

/-- A factor near one, known up to some decibels. -/
def decibels (size : R) (confidence : Written R) (count : Except (Fault R) SampleCount) :
    Draw R S (Quantity R) := do
  Draw.require (Scalar.isPositive size) (.notPositive "Decibels" size)
  let ten : R := Scalar.ofNat 10
  let low ← Draw.ofExcept (Checked.pow ten (-size / ten))
  let high ← Draw.ofExcept (Checked.pow ten (size / ten))
  lognormal low high confidence (.plain count)

end Ballpark.Sampler
