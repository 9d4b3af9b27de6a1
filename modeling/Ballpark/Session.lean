import Ballpark.Builtin
import Ballpark.Constant
import Ballpark.Program.Node

/-!
# Sessions

What a program is evaluated in: the settings, the random source, and what statements have defined so
far. Evaluation is a computation on a session that may fail; names that hold only inside an
expression are not part of the session but given to the evaluation as frames.
-/

namespace Ballpark

/-- A function that a program has defined. -/
structure FunctionDefinition where
  name : String
  parameters : List String
  body : Node
  deriving Repr

/-- The state of a session. -/
structure Session (R S : Type) where
  settings : Settings R
  /-- what random numbers are drawn from -/
  source : S
  /-- the values of the variables -/
  values : Bindings (Quantity R)
  /-- variables that keep a value whatever is assigned to them -/
  pins : Bindings (Quantity R)
  functions : Bindings FunctionDefinition
  /-- units under their labels, ticks included -/
  units : Bindings (Quantity R)
  /-- the constants that have been drawn -/
  constants : Bindings (Quantity R)

/-- Computations on a session. -/
abbrev Evaluation (R S : Type) := ExceptT (Fault R) (StateM (Session R S))

/-- The names that hold inside an expression: those of the innermost binding first. -/
abbrev Frames (R : Type) := List (Bindings (Quantity R))

namespace Evaluation

variable {R S : Type}

/-- A computation that does not depend on the session. -/
def ofExcept {α : Type} (e : Except (Fault R) α) : Evaluation R S α :=
  ExceptT.mk (pure e)

/-- A computation that draws from the session's source. -/
def draw {α : Type} (d : Draw R S α) : Evaluation R S α :=
  ExceptT.mk fun session =>
    let (result, source) := d.run session.source
    (result, { session with source })

end Evaluation

namespace Session

variable {R S : Type}

/-- A session that draws from a given source. -/
def ofSource (settings : Settings R) (source : S) : Session R S :=
  ⟨settings, source, .empty, .empty, .empty, .empty, .empty⟩

/-- The random source of the settings' seed. -/
def seededSource [RandomSource S R] (settings : Settings R) : S :=
  RandomSource.seeded (settings.seed.getD 0)

/-- A session that draws from the source of its seed. -/
def ofSettings [RandomSource S R] (settings : Settings R) : Session R S :=
  ofSource settings (seededSource settings)

/-- What samplers are told in a session: its number of particles, and a unit. -/
def frame (session : Session R S) (unit : CompoundUnit R) : SampleFrame R :=
  ⟨.ok session.settings.sampleCount, .unit unit⟩

/-- The names of the variables. -/
def variableNames (session : Session R S) : List String :=
  session.values.names

/-- The names of the variables and of all constants. -/
def allNames [Scalar R] (session : Session R S) : List String :=
  session.values.names ++ Constant.names R

/-- Sets a variable. -/
def setVariable (name : String) (q : Quantity R) (session : Session R S) : Session R S :=
  { session with values := session.values.set name q }

/-- Holds a variable at a value. What is assigned to it is still evaluated, so that later statements
draw the same numbers. -/
def pinVariable (name : String) (q : Quantity R) (session : Session R S) : Session R S :=
  { session with values := session.values.set name q, pins := session.pins.set name q }

/-- Forgets the variables. -/
def clearVariables (session : Session R S) : Session R S :=
  { session with values := .empty }

/-- Forgets everything and starts again with the seed. -/
def reset [RandomSource S R] (session : Session R S) : Session R S :=
  ofSettings session.settings

/-- The function of a name. -/
def function? (session : Session R S) (name : String) : Option FunctionDefinition :=
  session.functions.get? name

/-- The unit of a label, whose tick may be left out. -/
def customUnit? (session : Session R S) (name : String) : Option (Quantity R) :=
  session.units.get? (if name.toList.head? = some '\'' then name else "'" ++ name)

variable [Scalar R] [RandomSource S R]

/-- The value of a constant, drawn when it is asked for first. -/
def constant? (name : String) : Evaluation R S (Option (Quantity R)) := do
  let session ← get
  let (value, constants) ← Evaluation.draw
    (Constant.remember session.settings.confidence (.ok session.settings.sampleCount) name
      session.constants)
  modify ({ · with constants })
  return value

/-- The value of a variable or constant. -/
def valueOf? (name : String) : Evaluation R S (Option (Quantity R)) := do
  match (← get).values.get? name with
  | some q => return some q
  | none => constant? name

/-- The value under a name inside an expression. -/
def lookup? (frames : Frames R) (name : String) : Evaluation R S (Option (Quantity R)) :=
  match frames.findSome? (·.get? name) with
  | some q => return some q
  | none => valueOf? name

end Session

end Ballpark
