import Ballpark.Random.Source

/-!
# The gamma family

Gamma numbers by rejection: each pass draws one candidate for every place that is still empty, and a
candidate that passes the squeeze or the logarithmic test is written to its place. Beta numbers are quotients
of gamma numbers; odds and success rates are beta numbers.
-/

namespace Ballpark.Sampler

variable {R S : Type} [Scalar R]

/-- The most passes that a sampler by rejection makes. -/
def passLimit : Nat := 1000000

/-- The constants of a gamma shape. -/
structure GammaShape (R : Type) where
  d : R
  c : R

/-- The constants of a shape of at least one. -/
def GammaShape.of (shape : R) : GammaShape R :=
  let d := shape - Scalar.ofNat 1 / Scalar.ofNat 3
  ⟨d, Scalar.ofNat 1 / Scalar.apply .sqrt (Scalar.ofNat 9 * d)⟩

/-- The cube that a normal number makes a candidate from. -/
def GammaShape.cube (g : GammaShape R) (x : R) : R :=
  Scalar.pow (Scalar.ofNat 1 + g.c * x) (Scalar.ofNat 3)

/-- The quick test, which accepts most candidates. -/
def squeezeAccepts (x u : R) : Bool :=
  Scalar.lt u (Scalar.ofNat 1 - Scalar.ofRat 0.0331 * Scalar.pow x (Scalar.ofNat 4))

/-- The exact test. -/
def GammaShape.logAccepts (g : GammaShape R) (x v u : R) : Bool :=
  Scalar.lt (Scalar.apply .log u)
    (Scalar.ofRat 0.5 * (x * x) + g.d * (Scalar.ofNat 1 - v + Scalar.apply .log v))

/-- The gamma number of a normal and a uniform number, if it is accepted. -/
def GammaShape.candidate (g : GammaShape R) (x u : R) : Option R :=
  let v := g.cube x
  if Scalar.isPositive v && (squeezeAccepts x u || g.logAccepts x v u) then some (g.d * v) else none

/-- Places for numbers, and the indices of those that are still empty. -/
structure Filling (R : Type) where
  places : Array (Option R)
  pending : List Nat

namespace Filling

/-- So many empty places. -/
def start (n : Nat) : Filling R :=
  ⟨Array.replicate n none, List.range n⟩

/-- The candidates that are accepted, each with the index that it was drawn for. -/
def accepted (pending : List Nat) (candidates : List (Option R)) : List (Nat × R) :=
  (pending.zip candidates).filterMap fun (i, candidate) => candidate.map (i, ·)

/-- The indices whose candidates are rejected, in order. -/
def rejected (pending : List Nat) (candidates : List (Option R)) : List Nat :=
  ((pending.zip candidates).filter fun (_, candidate) => candidate.isNone).map Prod.fst

/-- Writes numbers to their places. -/
def write (places : Array (Option R)) (numbers : List (Nat × R)) : Array (Option R) :=
  numbers.foldl (fun places (i, y) => places.setIfInBounds i (some y)) places

/-- Writes the accepted candidates, one candidate having been drawn for each pending index; the rejected
ones stay pending. -/
def fill (f : Filling R) (candidates : List (Option R)) : Filling R :=
  ⟨write f.places (accepted f.pending candidates), rejected f.pending candidates⟩

/-- The numbers that have been written. -/
def numbers (f : Filling R) : List R :=
  f.places.toList.filterMap id

end Filling

variable [RandomSource S R]

/-- One pass over the pending indices: first the normal numbers for all of them, then the uniform ones. -/
def gammaPass (g : GammaShape R) (f : Filling R) : Draw R S (Filling R) := do
  let m := f.pending.length
  let x ← Draw.normals m
  let u ← Draw.uniforms m
  return f.fill (List.zipWith g.candidate x u)

/-- Makes passes until no index is pending. -/
def gammaPasses (g : GammaShape R) : Nat → Filling R → Draw R S (Filling R)
  | 0, _ => throw .exhausted
  | limit + 1, f =>
    if f.pending.isEmpty then return f
    else do gammaPasses g limit (← gammaPass g f)

/-- A list that is known to hold numbers, as a sample. -/
def toSample (xs : List R) : Draw R S (Sample R) :=
  match Sample.ofList? xs with
  | some s => return s
  | none => throw (.parameter .emptySample)

/-- Gamma numbers of a shape of at least one, and of scale one, in less than `limit` passes. -/
def gammaLarge (limit : Nat) (shape : R) (n : SampleCount) : Draw R S (Sample R) := do
  let filled ← gammaPasses (.of shape) limit (.start n.size)
  toSample filled.numbers

/-- Gamma numbers of scale one, in less than `limit` passes. Below a shape of one they are those of the
next shape, each multiplied by a power of a uniform number. -/
def standardGammaWithin (limit : Nat) (shape : R) (n : SampleCount) : Draw R S (Sample R) := do
  if Scalar.lt shape (Scalar.ofNat 1) then
    let boosted ← gammaLarge limit (shape + Scalar.ofNat 1) n
    let u ← Draw.uniformSample n
    let power := Scalar.ofNat 1 / shape
    return boosted.zipWith (fun y u => y * Scalar.pow u power) u
  else gammaLarge limit shape n

/-- Gamma numbers of scale one. -/
def standardGamma (shape : R) (n : SampleCount) : Draw R S (Sample R) :=
  standardGammaWithin passLimit shape n

/-- Gamma numbers. -/
def gamma (shape scale : R) (frame : SampleFrame R) : Draw R S (Quantity R) := do
  Draw.requireFinite "Gamma" [shape, scale]
  Draw.require (Scalar.isPositive shape) (.notPositive "Gamma shape" shape)
  Draw.require (Scalar.isPositive scale) (.notPositive "Gamma scale" scale)
  let n ← frame.resolve
  frame.finish ((← standardGamma shape n).map (· * scale))

/-- Beta numbers. -/
def beta (alpha beta : R) (frame : SampleFrame R) : Draw R S (Quantity R) := do
  Draw.requireFinite "Beta" [alpha, beta]
  Draw.require (Scalar.isPositive alpha) (.notPositive "Beta alpha" alpha)
  Draw.require (Scalar.isPositive beta) (.notPositive "Beta beta" beta)
  let n ← frame.resolve
  let x ← standardGamma alpha n
  let y ← standardGamma beta n
  frame.finish (x.zipWith (fun x y => x / (x + y)) y)

/-- The success rate behind some successes in a number of trials, by the rule of succession. -/
def outOf (successes total : R) (count : Except (Fault R) SampleCount) : Draw R S (Quantity R) := do
  Draw.require (Scalar.isNonnegative successes) (.negativeSuccesses successes)
  Draw.require (Scalar.le successes total) (.tooManySuccesses successes total)
  let one : R := Scalar.ofNat 1
  beta (successes + one) (total - successes + one) (.plain count)

/-- The probability behind odds, given by counts for and against. -/
def against (pro contra : R) (count : Except (Fault R) SampleCount) : Draw R S (Quantity R) := do
  Draw.require (Scalar.isPositive pro) (.notPositive "'For' count" pro)
  Draw.require (Scalar.isPositive contra) (.notPositive "'Against' count" contra)
  beta pro contra (.plain count)

end Ballpark.Sampler
