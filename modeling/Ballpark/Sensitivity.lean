import Ballpark.Session.Run

/-!
# Sensitivity

Which input drives the spread of an output? For each input the output is computed again with that
input held at its mean; the variance that the output loses is the input's contribution. What all
contributions together leave over is due to inputs acting together.
-/

namespace Ballpark

/-- How much of the output's variance an input explains. -/
structure Contribution (R : Type) where
  name : String
  /-- the variance that the output loses when the input is held at its mean -/
  variance : R
  /-- the same in percent of the output's variance -/
  percent : R
  /-- the mean of the input -/
  mean : R
  /-- the deviation of the input -/
  deviation : R
  deriving Repr

/-- The spread of an output and what explains it. -/
structure Sensitivity (R : Type) where
  mean : R
  deviation : R
  variance : R
  /-- the contributions of the inputs, the largest first -/
  contributions : List (Contribution R)
  /-- the variance that no input explains alone -/
  unexplained : R
  deriving Repr

namespace Sensitivity

variable {R : Type} [Scalar R]

/-- A number, or zero in place of one that is not above zero. -/
def positivePart (x : R) : R :=
  if Scalar.isPositive x then x else Scalar.ofNat 0

/-- A share of a whole in percent; zero if there is no whole. -/
def percentOf (part whole : R) : R :=
  if Scalar.isPositive whole then part / whole * Scalar.ofNat 100 else Scalar.ofNat 0

/-- The unexplained variance in percent. -/
def unexplainedPercent (s : Sensitivity R) : R :=
  if Scalar.le s.variance (Scalar.ofNat 0) then Scalar.ofNat 0
  else s.unexplained / s.variance * Scalar.ofNat 100

/-- A quantity held at its mean. -/
def atMean (q : Quantity R) : Quantity R :=
  ⟨.scalar q.mean, q.unit⟩

/-- The contribution of an input, given the output that is computed with the input at its mean. -/
def contribution (whole : R) (name : String) (input reduced : Quantity R) : Contribution R :=
  let lost := positivePart (whole - reduced.variance)
  ⟨name, lost, percentOf lost whole, input.mean, input.deviation⟩

/-- The contributions in order of their size, equal ones in the order of the inputs. -/
def ranked (contributions : List (Contribution R)) : List (Contribution R) :=
  contributions.mergeSort fun a b => Scalar.le b.variance a.variance

/-- What contributions say about an output. -/
def ofContributions (output : Quantity R) (contributions : List (Contribution R)) : Sensitivity R :=
  let whole := output.variance
  let explained := contributions.foldl (fun sum c => sum + c.variance) (Scalar.ofNat 0)
  ⟨output.mean, output.deviation, whole, ranked contributions, positivePart (whole - explained)⟩

/-- The sensitivity of an output to inputs, given how the output is computed with one of them held at
a value. -/
def analyzeWith (inputs : List (String × Quantity R)) (output : Quantity R)
    (recompute : String → Quantity R → Except (Fault R) (Quantity R)) :
    Except (Fault R) (Sensitivity R) := do
  let contributions ← inputs.mapM fun (name, input) => do
    return contribution output.variance name input (← recompute name (atMean input))
  return ofContributions output contributions

/-- The sensitivity of what is computed from inputs. -/
def analyze (inputs : Bindings (Quantity R))
    (compute : Bindings (Quantity R) → Except (Fault R) (Quantity R)) :
    Except (Fault R) (Sensitivity R) := do
  analyzeWith inputs.entries (← compute inputs) fun name q => compute (inputs.set name q)

/-! ## Variables of a program -/

variable {S : Type} [RandomSource S R]

/-- The number of seeds that are drawn from. -/
def seedRange : Nat := 4294967296

/-- Settings with a seed; if they have none it is drawn from the source of seed zero. -/
def withSeed (S : Type) [RandomSource S R] (settings : Settings R) : Settings R :=
  match settings.seed with
  | some _ => settings
  | none =>
    let (x, _) := RandomSource.uniform (RandomSource.seeded 0 : S)
    { settings with seed := some (Sample.wholePart (x * Scalar.ofNat seedRange)) }

/-- The session of a program in which some variables are pinned. -/
def sessionOf (S : Type) [RandomSource S R] (settings : Settings R) (program : Node)
    (pinned : List (String × Quantity R)) : Except (Fault R) (Session R S) :=
  let start : Session R S := .ofSettings settings
  let start := pinned.foldl (fun session (name, q) => session.pinVariable name q) start
  let (result, session) := (Session.evaluateTree program : Evaluation R S _).run start
  result.map fun _ => session

/-- A variable or constant that must be there. -/
def requiredVariable (name : String) : Evaluation R S (Quantity R) := do
  match ← Session.valueOf? name with
  | some q => return q
  | none => throw (.undefinedVariable name (Suggestion.suggest name (← get).variableNames))

/-- The sensitivity of a variable of a program to other variables of it. Every evaluation has the same
seed, so that the inputs that are not held keep their particles. -/
def ofProgram (S : Type) [RandomSource S R] (settings : Settings R) (source output : String)
    (inputs : List String) : Except (Fault R) (Sensitivity R) := do
  if inputs.isEmpty then throw (.parameter .noInputs)
  else
    let settings := withSeed S settings
    let program ← (Node.ofText source).mapError Fault.program
    let session : Session R S ← sessionOf S settings program []
    let reads : Evaluation R S (List (Quantity R) × Quantity R) := do
      return (← inputs.mapM requiredVariable, ← requiredVariable output)
    let (values, value) ← (reads.run session).1
    analyzeWith (Bindings.ofList (inputs.zip values)).entries value fun name q => do
      let session ← sessionOf S settings program [(name, q)]
      ((requiredVariable output : Evaluation R S (Quantity R)).run session).1

/-! ## Report -/

/-- The percent that one mark of a bar stands for. -/
def percentPerMark : Nat := 5

/-- How many marks a contribution has. -/
def markCount (percent : R) : Except (Fault R) Nat :=
  match Scalar.exact (Scalar.apply .round (percent / Scalar.ofNat percentPerMark)) with
  | .undefined => .error (.value .undefinedWhole)
  | .infinite _ => .error (.arithmetic .infiniteWhole)
  | .finite negative size => .ok (if negative then 0 else size.floor.toNat)

/-- A number in scientific notation with three decimals. -/
def scientific (x : R) : String :=
  Decimal.scientificText 3 (Scalar.exact x)

/-- A number of percent with one decimal. -/
def percentText (x : R) : String :=
  Decimal.fixedText 1 (Scalar.exact x) ++ "%"

/-- The line of a contribution: its name, its percent and a bar. -/
def contributionLine (c : Contribution R) : Except (Fault R) String := do
  let bar := String.ofList (List.replicate (← markCount c.percent) '█')
  return "  " ++ c.name ++ ": " ++ percentText c.percent ++ " " ++ bar

/-- The lines of a report. -/
def lines (s : Sensitivity R) : Except (Fault R) (List String) := do
  let bars ← s.contributions.mapM contributionLine
  let rest := s.unexplainedPercent
  let interactions :=
    if Scalar.lt (Scalar.ofNat 1) rest then ["  (interactions): " ++ percentText rest] else []
  return ["Output: " ++ scientific s.mean ++ " ± " ++ scientific s.deviation, "",
    "Variance Contribution:"] ++ bars ++ interactions

/-- The columns of the table of contributions. -/
def columns : List String :=
  ["input", "variance_contribution", "percent_contribution", "input_mean", "input_std"]

end Sensitivity

end Ballpark
