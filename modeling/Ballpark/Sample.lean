import Ballpark.Scalar.Total

/-!
# Samples

The particles of an uncertain number: a list that is never empty. Samples of different lengths are
combined by starting the shorter one again.
-/

namespace Ballpark

/-- The particles of an uncertain number. -/
structure Sample (R : Type) where
  /-- the first particle -/
  head : R
  /-- the other particles -/
  tail : List R
  deriving Repr, DecidableEq

namespace Sample

variable {R : Type}

/-- The particles in order. -/
def toList (s : Sample R) : List R :=
  s.head :: s.tail

/-- The sample of a list, if it has particles. -/
def ofList? : List R → Option (Sample R)
  | [] => none
  | x :: xs => some ⟨x, xs⟩

/-- The sample of a single particle. -/
def single (x : R) : Sample R :=
  ⟨x, []⟩

/-- The number of particles. -/
def size (s : Sample R) : Nat :=
  s.tail.length + 1

/-- A function applied to each particle. -/
def map {T : Type} (f : R → T) (s : Sample R) : Sample T :=
  ⟨f s.head, s.tail.map f⟩

/-- The next `n` particles, beginning with those given and starting again behind the last. -/
def cycleFrom (s : Sample R) : Nat → List R → List R
  | 0, _ => []
  | n + 1, x :: xs => x :: s.cycleFrom n xs
  | n + 1, [] => s.head :: s.cycleFrom n s.tail

/-- The sample stretched to `n` particles, at least one, by repetition. -/
def cycle (s : Sample R) (n : Nat) : Sample R :=
  ⟨s.head, s.cycleFrom (n - 1) s.tail⟩

/-- Two samples combined particle by particle, the shorter one repeated. -/
def zipWith {T V : Type} (f : R → T → V) (a : Sample R) (b : Sample T) : Sample V :=
  let n := max a.size b.size
  ⟨f a.head b.head, List.zipWith f (a.cycle n).tail (b.cycle n).tail⟩

/-- Three samples combined particle by particle, the shorter ones repeated. -/
def zipWith3 {T V W : Type} (f : R → T → V → W) (a : Sample R) (b : Sample T) (c : Sample V) :
    Sample W :=
  let n := max a.size (max b.size c.size)
  ((a.cycle n).zipWith f (b.cycle n)).zipWith (fun g z => g z) (c.cycle n)

variable [Scalar R]

/-- The particles in increasing order. -/
def sorted (s : Sample R) : List R :=
  s.toList.mergeSort Scalar.sortsBefore

/-- The smallest particle; undefined if one of them is. -/
def min (s : Sample R) : R :=
  s.tail.foldl Scalar.minimum s.head

/-- The largest particle; undefined if one of them is. -/
def max (s : Sample R) : R :=
  s.tail.foldl Scalar.maximum s.head

/-- The arithmetic mean. -/
def mean (s : Sample R) : R :=
  Scalar.mean s.toList

/-- The variance of the particles themselves. -/
def variance (s : Sample R) : R :=
  Scalar.variance s.toList

/-- The item at a place of a list, at most its last. -/
def itemAt (start : R) (xs : List R) (place : Nat) : R :=
  xs.getD (Min.min place (xs.length - 1)) start

/-- The whole part of a number that is not negative. -/
def wholePart (x : R) : Nat :=
  (Scalar.toRat x).floor.toNat

/-- The particle at the share `p` of the order, a share of one being the last. -/
def orderStatistic (s : Sample R) (p : R) : R :=
  itemAt s.head s.sorted (wholePart (p * Scalar.ofNat s.size))

/-- The middle particle, or the mean of the two in the middle. -/
def median (s : Sample R) : R :=
  let ordered := s.sorted
  let half := ordered.length / 2
  let high := itemAt s.head ordered half
  if s.toList.any Scalar.isUndefined then (s.toList.find? Scalar.isUndefined).getD high
  else if ordered.length % 2 = 1 then high
  else Scalar.mean [itemAt s.head ordered (half - 1), high]

end Sample

/-- The number of a quantity: exact, or uncertain. -/
inductive Value (R : Type) where
  | scalar (x : R)
  | sample (s : Sample R)
  deriving Repr, DecidableEq

namespace Value

variable {R : Type}

/-- Is the value exact? -/
def isScalar : Value R → Bool
  | scalar _ => true
  | sample _ => false

/-- The particles of a value; an exact one has a single particle. -/
def particles : Value R → Sample R
  | scalar x => .single x
  | sample s => s

/-- A function applied to each particle. -/
def map {T : Type} (f : R → T) : Value R → Value T
  | scalar x => scalar (f x)
  | sample s => sample (s.map f)

/-- Two values combined particle by particle; exact if both are. -/
def zipWith {T V : Type} (f : R → T → V) : Value R → Value T → Value V
  | scalar x, scalar y => scalar (f x y)
  | a, b => sample (a.particles.zipWith f b.particles)

/-- Three values combined particle by particle; exact if all are. -/
def zipWith3 {T V W : Type} (f : R → T → V → W) : Value R → Value T → Value V → Value W
  | scalar x, scalar y, scalar z => scalar (f x y z)
  | a, b, c => sample (a.particles.zipWith3 f b.particles c.particles)

end Value

end Ballpark
