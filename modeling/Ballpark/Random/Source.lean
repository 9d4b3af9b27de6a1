import Ballpark.Quantity
import Ballpark.Settings

/-!
# Random sources

Samplers draw from a source: a state with a step for uniform and one for normal numbers. A sampler is
a computation on such a state that may fail; when it fails the state it has reached stays.
-/

namespace Ballpark

/-- States that random numbers are drawn from. -/
class RandomSource (S : Type) (R : outParam Type) where
  /-- a number from zero up to but not including one -/
  uniform : S → R × S
  /-- a number with mean zero and deviation one -/
  normal : S → R × S
  /-- the state of a seed -/
  seeded : Int → S

/-- Computations that draw from a source. -/
abbrev Draw (R S : Type) := ExceptT (Fault R) (StateM S)

namespace Draw

variable {R S : Type}

/-- Repeats a step. -/
def repeated (step : S → R × S) : Nat → S → List R × S
  | 0, s => ([], s)
  | n + 1, s =>
    let (x, s) := step s
    let (xs, s) := repeated step n s
    (x :: xs, s)

/-- Repeats a step at least once. -/
def sampleOf (step : S → R × S) (n : SampleCount) (s : S) : Sample R × S :=
  let (x, s) := step s
  let (xs, s) := repeated step (n.size - 1) s
  (⟨x, xs⟩, s)

variable [RandomSource S R]

/-- Draws a number of uniform numbers. -/
def uniforms (n : Nat) : Draw R S (List R) :=
  ExceptT.lift (repeated RandomSource.uniform n)

/-- Draws a number of normal numbers. -/
def normals (n : Nat) : Draw R S (List R) :=
  ExceptT.lift (repeated RandomSource.normal n)

/-- Draws a sample of uniform numbers. -/
def uniformSample (n : SampleCount) : Draw R S (Sample R) :=
  ExceptT.lift (sampleOf RandomSource.uniform n)

/-- Draws a sample of normal numbers. -/
def normalSample (n : SampleCount) : Draw R S (Sample R) :=
  ExceptT.lift (sampleOf RandomSource.normal n)

/-- A computation that draws nothing. -/
def ofExcept {α : Type} (e : Except (Fault R) α) : Draw R S α :=
  ExceptT.mk (pure e)

/-- Goes on only if a condition on the parameters holds. -/
def require (condition : Bool) (otherwise : ParameterFault R) : Draw R S PUnit :=
  ofExcept (if condition then .ok ⟨⟩ else .error (.parameter otherwise))

/-- Goes on only with finite parameters. -/
def requireFinite [Scalar R] (sampler : String) (values : List R) : Draw R S PUnit :=
  require (values.all Scalar.isFinite) (.notFinite sampler values)

end Draw

/-- The unit that a sampler gives its particles. -/
inductive UnitChoice (R : Type) where
  | unit (u : CompoundUnit R)
  /-- the text of a unit, which is read when the particles have been drawn -/
  | text (t : String)

namespace UnitChoice

variable {R : Type} [Scalar R]

/-- No unit. -/
def none : UnitChoice R :=
  unit .one

/-- A sample in the chosen unit. -/
def apply (choice : UnitChoice R) (s : Sample R) : Except (Fault R) (Quantity R) :=
  match choice with
  | unit u => .ok ⟨.sample s, u⟩
  | text t => Quantity.ofText (.sample s) t

end UnitChoice

/-- What samplers are told beside their parameters: the number of particles, unless it is refused, and
the unit. -/
structure SampleFrame (R : Type) where
  count : Except (Fault R) SampleCount
  unit : UnitChoice R

namespace SampleFrame

variable {R S : Type} [Scalar R]

/-- The number of particles. -/
def resolve (f : SampleFrame R) : Draw R S SampleCount :=
  Draw.ofExcept f.count

/-- The quantity of a sample. -/
def finish (f : SampleFrame R) (s : Sample R) : Draw R S (Quantity R) :=
  Draw.ofExcept (f.unit.apply s)

/-- Particles without a unit. -/
def plain (count : Except (Fault R) SampleCount) : SampleFrame R :=
  ⟨count, .none⟩

end SampleFrame

end Ballpark
