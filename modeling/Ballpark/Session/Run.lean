import Ballpark.Program.Reading
import Ballpark.Session.Evaluate

/-!
# Running programs

A program is run statement by statement. A statement that fails leaves what the statements before it
have defined, and the next one runs as usual; only a fault that is none of the calculator's own ends
the run.
-/

namespace Ballpark

/-- What a statement has come to. -/
structure StatementResult (R : Type) where
  /-- the place of the statement in its program -/
  index : Nat
  node : Node
  /-- the value, if there is one, or what went wrong -/
  outcome : Except (Fault R) (Option (Quantity R))

namespace StatementResult

variable {R : Type}

/-- Has the statement failed? -/
def hasFailed (r : StatementResult R) : Bool :=
  match r.outcome with
  | .ok _ => false
  | .error _ => true

/-- The value of the statement. -/
def value? (r : StatementResult R) : Option (Quantity R) :=
  match r.outcome with
  | .ok value => value
  | .error _ => none

/-- The name that the statement assigns to. -/
def name? (r : StatementResult R) : Option String :=
  r.node.assignedName?

end StatementResult

namespace Session

variable {R S : Type}

/-- What a run makes of a fault: the fault that the statement's result shows, none if the run ends. -/
def recovered? (f : Fault R) : Option (Fault R) :=
  match f with
  | .arithmetic cause => some (.evaluation (.arithmetic cause))
  | f => if f.isCalculators then some f else none

variable [Scalar R] [RandomSource S R]

/-- Evaluates a tree on its own. -/
def evaluateTree (node : Node) : Evaluation R S (Option (Quantity R)) :=
  evaluateWithin (callLimit + 1) [] node

/-- Evaluates a statement of a run. -/
def runStatement (node : Node) : Evaluation R S (Except (Fault R) (Option (Quantity R))) :=
  tryCatch (Except.ok <$> evaluateTree node) fun f =>
    match recovered? f with
    | some shown => return .error shown
    | none => throw f

/-- Runs statements from a given place on. -/
def runStatements : Nat → List Node → Evaluation R S (List (StatementResult R))
  | _, [] => return []
  | index, node :: rest => do
    let outcome ← runStatement node
    return ⟨index, node, outcome⟩ :: (← runStatements (index + 1) rest)

/-- A computation that reads a program's text. -/
def reading {α : Type} (e : Except ProgramFault α) : Evaluation R S α :=
  Evaluation.ofExcept (e.mapError .program)

/-- Runs a program. -/
def run (source : String) : Evaluation R S (List (StatementResult R)) := do
  runStatements 0 (← reading (Node.statementsOfText source))

/-- Evaluates a program; gives the value of its last statement, or the first fault. -/
def evaluate (source : String) : Evaluation R S (Option (Quantity R)) := do
  evaluateTree (← reading (Node.ofText source))

end Session

end Ballpark
