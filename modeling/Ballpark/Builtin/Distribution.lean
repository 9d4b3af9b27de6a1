import Ballpark.Random.Count
import Ballpark.Random.Interval
import Ballpark.Random.WeightedSet

/-!
# Distributions by name

The samplers that a program may call. Their arguments are plain numbers, of an uncertain quantity its
mean.
-/

namespace Ballpark

/-- A distribution with a name of its own. -/
inductive Distribution where
  | interval | lognormal | normal | uniform | plusMinus | outOf | against | beta | gamma | poisson
  | exponential | exponentialMean | binomial | percent | decibels
  deriving DecidableEq, Repr

namespace Distribution

/-- The distributions under their names. -/
def table : List (String × Distribution) := [
  ("to", interval),
  ("lognormal", lognormal),
  ("normal", normal),
  ("uniform", uniform),
  ("plusminus", plusMinus),
  ("outof", outOf),
  ("against", against),
  ("beta", beta),
  ("gamma", gamma),
  ("poisson", poisson),
  ("exponential", exponential),
  ("exponential_mean", exponentialMean),
  ("binomial", binomial),
  ("percent", percent),
  ("db", decibels)]

/-- The distribution of a name. -/
def ofName? (name : String) : Option Distribution :=
  table.lookup name

variable {R S : Type} [Scalar R] [RandomSource S R]

/-- The sampler of a distribution with given parameters; none if it does not take so many. A gamma
distribution has scale one, and decibels are one, if nothing is said. Rates and factors have no
unit. -/
def sampler? (confidence : Written R) (frame : SampleFrame R) :
    Distribution → List R → Option (Draw R S (Quantity R))
  | interval, [a, b] => some (Sampler.interval a b confidence frame)
  | lognormal, [a, b] => some (Sampler.lognormal a b confidence frame)
  | normal, [a, b] => some (Sampler.normal a b confidence frame)
  | uniform, [a, b] => some (Sampler.uniform a b frame)
  | plusMinus, [mean, deviation] => some (Sampler.plusMinus mean deviation frame)
  | outOf, [successes, total] => some (Sampler.outOf successes total frame.count)
  | against, [pro, contra] => some (Sampler.against pro contra frame.count)
  | beta, [a, b] => some (Sampler.beta a b frame)
  | gamma, [shape] => some (Sampler.gamma shape (Scalar.ofNat 1) frame)
  | gamma, [shape, scale] => some (Sampler.gamma shape scale frame)
  | poisson, [rate] => some (Sampler.poisson rate frame)
  | exponential, [rate] => some (Sampler.exponential rate frame)
  | exponentialMean, [mean] => some (Sampler.exponentialMean mean frame)
  | binomial, [trials, p] => some (Sampler.binomial trials p frame)
  | percent, [percentage] => some (Sampler.percent percentage confidence frame.count)
  | decibels, [] => some (Sampler.decibels (Scalar.ofNat 1) confidence frame.count)
  | decibels, [size] => some (Sampler.decibels size confidence frame.count)
  | _, _ => none

end Distribution

end Ballpark
