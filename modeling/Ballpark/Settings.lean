import Ballpark.Fault

/-!
# Settings

How many particles a sampler draws, how much of the probability an interval holds, and the seed of the
random source. Numbers that a user writes are checked here, and shown in messages as they were
written.
-/

namespace Ballpark

/-- A number as it was written. -/
inductive Written (R : Type) where
  | whole (n : Int)
  | decimal (x : R)
  | truth (b : Bool)
  deriving Repr, DecidableEq

namespace Written

variable {R : Type} [Scalar R]

/-- The text of a written number. -/
def text : Written R → String
  | whole n => toString n
  | decimal x => numberText x
  | truth b => if b then "True" else "False"

/-- The number that was written. -/
def toScalar : Written R → R
  | whole n => Scalar.ofInt n
  | decimal x => x
  | truth b => Scalar.ofBool b

end Written

/-- A number of particles: at least one. -/
structure SampleCount where
  size : Nat
  positive : 0 < size

namespace SampleCount

/-- The number of particles when none is asked for. -/
def default : SampleCount :=
  ⟨20000, by decide⟩

variable {R : Type} [Scalar R]

/-- A whole number as a number of particles. -/
def ofInt (n : Int) (shown : String) : Except (Fault R) SampleCount :=
  if h : 0 < n.toNat then .ok ⟨n.toNat, h⟩ else .error (.value (.sampleCount shown))

/-- The number of particles that is asked for. -/
def ofWritten : Option (Written R) → Except (Fault R) SampleCount
  | none => .ok default
  | some (.truth b) => .error (.value (.sampleCount (Written.text (.truth b : Written R))))
  | some (.whole n) => ofInt n (toString n)
  | some (.decimal x) =>
    match Scalar.exact x with
    | .undefined => .error (.value .undefinedWhole)
    | .infinite _ => .error (.arithmetic .infiniteWhole)
    | .finite negative magnitude =>
      let q := if negative then -magnitude else magnitude
      if q.den = 1 then ofInt q.num (numberText x) else .error (.value (.sampleCount (numberText x)))

end SampleCount

/-- The settings of a session. -/
structure Settings (R : Type) where
  sampleCount : SampleCount
  confidence : Written R
  seed : Option Int

/-- Settings as they are asked for. -/
structure SettingsRequest (R : Type) where
  sampleCount : Option (Written R)
  confidence : Option (Written R)
  seed : Option Int

namespace SettingsRequest

variable {R : Type}

/-- What holds when nothing is asked for. -/
def default [Scalar R] : SettingsRequest R :=
  ⟨some (.whole SampleCount.default.size), some (.decimal (Scalar.ofRat 0.9)), none⟩

/-- A request with those parts of another that it gives. -/
def withOverrides (base changes : SettingsRequest R) : SettingsRequest R :=
  ⟨changes.sampleCount.or base.sampleCount, changes.confidence.or base.confidence,
    changes.seed.or base.seed⟩

variable [Scalar R]

/-- The settings that a request makes, if its numbers are sound. -/
def check (r : SettingsRequest R) : Except (Fault R) (Settings R) := do
  let count ← SampleCount.ofWritten r.sampleCount
  match r.confidence with
  | none => throw .wrongSort
  | some c =>
    let x : R := c.toScalar
    if Scalar.isPositive x && Scalar.lt x (Scalar.ofNat 1) then return ⟨count, c, r.seed⟩
    else throw (.value (.confidence c.text))

end SettingsRequest

end Ballpark
