import Ballpark.Random.Gamma

/-!
# Counts

Poisson and binomial numbers. Small rates are counted out exactly, large ones are rounded normal
numbers.
-/

namespace Ballpark.Sampler

variable {R S : Type} [Scalar R]

/-- From this rate on, Poisson numbers are rounded normal numbers. -/
def poissonDirectLimit : Rat := 30

/-- Binomial numbers are counted out while fewer successes and fewer failures are expected. -/
def binomialDirectLimit : Rat := 10

/-- A particle that is being counted: the product of its uniform numbers, how many they are, and
whether more are needed. -/
structure Counting (R : Type) where
  product : R
  count : Nat
  active : Bool

/-- A particle that has not been counted yet. -/
def Counting.start : Counting R :=
  ⟨Scalar.ofNat 1, 0, true⟩

/-- One more uniform number for a particle. -/
def Counting.step (p : Counting R) (u : R) : Counting R :=
  { p with product := p.product * u, count := p.count + 1 }

/-- A particle needs more numbers as long as its product is above the limit. -/
def Counting.recheck (limit : R) (p : Counting R) : Counting R :=
  { p with active := Scalar.lt limit p.product }

/-- Hands uniform numbers out to the active particles, in order. -/
def handOut : List (Counting R) → List R → List (Option R)
  | [], _ => []
  | p :: rest, u => if p.active then u.head? :: handOut rest u.tail else none :: handOut rest u

/-- A step for each particle that has been handed a number; then all products are looked at. -/
def stepAll (limit : R) (particles : List (Counting R)) (handed : List (Option R)) : List (Counting R) :=
  (List.zipWith (fun p u? => u?.elim p p.step) particles handed).map (·.recheck limit)

variable [RandomSource S R]

/-- One uniform number for each active particle. -/
def countingPass (limit : R) (particles : List (Counting R)) : Draw R S (List (Counting R)) := do
  let u ← Draw.uniforms (particles.countP (·.active))
  return stepAll limit particles (handOut particles u)

/-- Makes passes until no particle is active. -/
def countingPasses (limit : R) : Nat → List (Counting R) → Draw R S (List (Counting R))
  | 0, _ => throw .exhausted
  | passes + 1, particles =>
    if particles.any (·.active) then do countingPasses limit passes (← countingPass limit particles)
    else return particles

/-- Poisson numbers of a small rate, counted out in less than `passes` passes. -/
def countedOut (passes : Nat) (rate : R) (n : SampleCount) : Draw R S (Sample R) := do
  let counted ← countingPasses (Scalar.apply .exp (-rate)) passes (List.replicate n.size .start)
  -- the last number took the product below the limit and does not count
  toSample (counted.map fun p => Scalar.ofInt ((p.count : Int) - 1))

/-- Poisson numbers, in less than `passes` passes if they are counted out. -/
def poissonWithin (passes : Nat) (rate : R) (frame : SampleFrame R) : Draw R S (Quantity R) := do
  Draw.requireFinite "Poisson" [rate]
  Draw.require (Scalar.isPositive rate) (.notPositive "Poisson lambda" rate)
  let n ← frame.resolve
  if Scalar.lt rate (Scalar.ofRat poissonDirectLimit) then
    frame.finish (← countedOut passes rate n)
  else
    let z ← Draw.normalSample n
    let root := Scalar.apply .sqrt rate
    frame.finish (z.map fun z =>
      Scalar.maximum (Scalar.ofNat 0) (Scalar.apply .round (rate + root * z)))

/-- Poisson numbers. -/
def poisson (rate : R) (frame : SampleFrame R) : Draw R S (Quantity R) :=
  poissonWithin passLimit rate frame

/-- A number kept between two bounds. -/
def clip (x low high : R) : R :=
  let y := if Scalar.lt x low then low else x
  if Scalar.lt high y then high else y

/-- How many of some uniform numbers fall below `p`, particle by particle. -/
def trialCounts (trials : Nat) (p : R) : Nat → Draw R S (List R)
  | 0 => return []
  | n + 1 => do
    let u ← Draw.uniforms trials
    return Scalar.ofNat (u.countP (Scalar.lt · p)) :: (← trialCounts trials p n)

/-- Binomial numbers. -/
def binomial (trials p : R) (frame : SampleFrame R) : Draw R S (Quantity R) := do
  Draw.requireFinite "Binomial" [trials, p]
  Draw.require (Scalar.isPositive trials && Scalar.eq (Scalar.apply .floor trials) trials)
    (.trials trials)
  Draw.require (Quantity.isProbability p) (.probability p)
  let n ← frame.resolve
  let mean := trials * p
  let failure := Scalar.ofNat 1 - p
  let limit : R := Scalar.ofRat binomialDirectLimit
  if Scalar.lt mean limit && Scalar.lt (trials * failure) limit then
    frame.finish (← toSample (← trialCounts (Sample.wholePart trials) p n.size))
  else
    let deviation := Scalar.apply .sqrt (mean * failure)
    let z ← Draw.normalSample n
    frame.finish (z.map fun z =>
      clip (Scalar.apply .round (mean + deviation * z)) (Scalar.ofNat 0) trials)

end Ballpark.Sampler
