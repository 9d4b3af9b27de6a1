import Ballpark.Session.Range

/-!
# Evaluation

The value of a syntax tree in a session. Operands are evaluated from left to right, and every sampler
draws when its node is evaluated, so the order of evaluation fixes the particles. Names are looked up
in the frames of the enclosing bindings and calls, then among the variables, then among the constants;
a name that is none of these is read as a unit.

Evaluation of a tree is by recursion on the tree, however deep it is, given how the bodies of the
program's functions are evaluated. Only calls of those functions can go on for ever: at most
`callLimit` of them may be open inside one another.
-/

namespace Ballpark

/-- How many calls of a program's functions may be open inside one another. -/
def callLimit : Nat := 10000

/-- How a tree is evaluated inside frames. -/
abbrev TreeEvaluation (R S : Type) := Frames R → Node → Evaluation R S (Option (Quantity R))

namespace Session

variable {R S : Type} [Scalar R]

/-- The value of an operator with two operands. -/
def binary (op : BinaryOperator) (left right : Quantity R) : Except (Fault R) (Quantity R) :=
  match op with
  | .add => left.add right
  | .subtract => left.subtract right
  | .multiply => left.multiply right
  | .divide => left.divide right
  | .power =>
    -- an exponent is one number without a unit
    match right.value with
    | .sample _ => .error (.evaluation .uncertainExponent)
    | .scalar k =>
      if right.hasUnit then .error (.units (.exponent right.unit.text)) else left.pow k
  | .compare c => left.compare c right
  | .other text => .error (.evaluation (.unknownOperator text))

/-- The value of an operator with one operand. -/
def unary (op : UnaryOperator) (operand : Quantity R) : Except (Fault R) (Quantity R) :=
  match op with
  | .negate => .ok operand.negate
  | .plus => .ok operand
  | .other text => .error (.evaluation (.unknownUnaryOperator text))

/-- Does a condition hold? -/
def isTrue (x : R) : Bool :=
  !Scalar.isZero x

/-- The choice between two quantities where the condition is uncertain: particle by particle, in the
unit of the first. -/
def choose (condition : Sample R) (yes no : Quantity R) : Except (Fault R) (Quantity R) := do
  if !yes.unit.sameDimension no.unit then
    throw (.units (.branches yes.unit.text no.unit.text))
  else
    let no ← no.convert yes.unit
    let pick (c x y : R) : R := if isTrue c then x else y
    return ⟨.sample (condition.zipWith3 pick yes.value.particles no.value.particles), yes.unit⟩

/-- A fault inside the call of a builtin function: a failure of the arithmetic becomes one of the
call. -/
def inCall (name : String) : Fault R → Fault R
  | .arithmetic cause => .evaluation (.callArithmetic name cause)
  | .value cause => .evaluation (.callValue name cause)
  | f => f

/-- The value of a node that must have one, given its evaluation. -/
def required (node : Node) (result : Evaluation R S (Option (Quantity R))) :
    Evaluation R S (Quantity R) := do
  match ← result with
  | some q => return q
  | none => throw (.evaluation (.noValue node.kind))

variable [RandomSource S R]

/-- Draws particles in a unit. -/
def sampleIn (unit : CompoundUnit R)
    (sampler : Written R → SampleFrame R → Draw R S (Quantity R)) :
    Evaluation R S (Quantity R) := do
  let session ← get
  Evaluation.draw (sampler session.settings.confidence (session.frame unit))

/-- A computation that reads the units of the session. -/
def withUnits {α : Type} (f : Bindings (Quantity R) → Except (Fault R) α) : Evaluation R S α := do
  Evaluation.ofExcept (f (← get).units)

/-- The value of a name. -/
def identifier (frames : Frames R) (name : String) : Evaluation R S (Quantity R) := do
  match ← lookup? frames name with
  | some q => return q
  | none =>
    match Quantity.ofText (.scalar (Scalar.ofNat 1 : R)) name with
    -- a name that no unit has is unknown, and the other faults of its text are reported as they are
    | .error (.unknownUnit ..) =>
      let candidates := frames.flatMap (·.names) ++ (← get).allNames
      throw (.undefinedVariable name (Suggestion.suggest name candidates))
    | result => Evaluation.ofExcept result

/-- The value of a call to a builtin function. -/
def callBuiltin (name : String) (arguments : List (Quantity R)) : Evaluation R S (Quantity R) := do
  let session ← get
  match Builtin.ofName? name with
  | none =>
    let candidates := Builtin.names ++ session.functions.names
    throw (.undefinedFunction name (Suggestion.suggest name candidates))
  | some function =>
    match function.call? session.settings.confidence (session.frame .one) arguments with
    | none => throw (.arity (.builtin name arguments.length))
    | some call => Evaluation.draw (call.adapt (inCall name))

/-- The frame of a call: the arguments under the names of the parameters. -/
def callFrame (function : FunctionDefinition) (arguments : List (Quantity R)) :
    Except (Fault R) (Bindings (Quantity R)) :=
  if arguments.length = function.parameters.length then
    .ok (.ofList (function.parameters.zip arguments))
  else .error (.arity (.defined function.name function.parameters.length arguments.length))

/-- The value of a literal whose last place is uncertain. -/
def sigFig (text : String) (unit : Option String) : Evaluation R S (Quantity R) := do
  let (low, high) ← Evaluation.ofExcept (literalBounds text)
  let q ← sampleIn .one fun _ frame => Sampler.uniform low high frame
  withUnits (inUnit · q unit)

/-- Sets a variable to its pin, or else to a value. -/
def assign (name : String) (value : Quantity R) : Evaluation R S (Quantity R) := do
  -- a pin stays, whatever is assigned
  let value := ((← get).pins.get? name).getD value
  modify (setVariable name value)
  return value

/-- Defines one of a unit that `count` of a quantity make. -/
def defineUnit (name : String) (count : R) (q : Quantity R) : Evaluation R S (Quantity R) := do
  let unit ← Evaluation.ofExcept (unitOf name count q)
  modify fun session => { session with units := session.units.set name unit }
  return unit

/-- Defines a function. -/
def defineFunction (function : FunctionDefinition) : Evaluation R S PUnit :=
  modify fun session =>
    { session with functions := session.functions.set function.name function }

/-- The value of a call: of a function of the program, or else of a builtin one. -/
def callFunction (body : TreeEvaluation R S) (frames : Frames R) (name : String)
    (arguments : List (Quantity R)) : Evaluation R S (Quantity R) := do
  match (← get).functions.get? name with
  | some function =>
    let frame ← Evaluation.ofExcept (callFrame function arguments)
    required function.body (body (frame :: frames) function.body)
  | none => callBuiltin name arguments

mutual

/-- The value of a node, if it has one, given how bodies of functions are evaluated. -/
def evaluateNode (body : TreeEvaluation R S) (frames : Frames R) :
    Node → Evaluation R S (Option (Quantity R))
  | .number x unit => some <$> withUnits (literal · (Scalar.ofDecimal x) unit)
  | .sigFig text unit => some <$> sigFig text unit
  | .identifier name => some <$> identifier frames name
  | .unit text => some <$> withUnits (unitQuantity · text)
  | .binary op left right => do
    let x ← required left (evaluateNode body frames left)
    let y ← required right (evaluateNode body frames right)
    some <$> Evaluation.ofExcept (binary op x y)
  | .unary op operand => do
    let x ← required operand (evaluateNode body frames operand)
    some <$> Evaluation.ofExcept (unary op x)
  | .range left right unit => do
    let low ← required left (evaluateNode body frames left)
    let high ← required right (evaluateNode body frames right)
    let b ← withUnits (strictBounds · right low high unit)
    some <$> sampleIn b.unit (Sampler.interval b.low b.high)
  | .uniformRange left right unit => do
    let low ← required left (evaluateNode body frames left)
    let high ← required right (evaluateNode body frames right)
    let b ← withUnits (looseBounds · low high true unit)
    some <$> sampleIn b.unit fun _ frame => Sampler.uniform b.low b.high frame
  | .normalRange mean spread unit => do
    let center ← required mean (evaluateNode body frames mean)
    let width ← required spread (evaluateNode body frames spread)
    let b ← withUnits (looseBounds · center width false unit)
    some <$> sampleIn b.unit (Sampler.normal (b.low - b.high) (b.low + b.high))
  | .betaOf successes total => do
    let x ← required successes (evaluateNode body frames successes)
    let y ← required total (evaluateNode body frames total)
    some <$> sampleIn .one fun _ frame => Sampler.outOf x.mean y.mean frame.count
  | .betaAgainst pro contra => do
    let x ← required pro (evaluateNode body frames pro)
    let y ← required contra (evaluateNode body frames contra)
    some <$> sampleIn .one fun _ frame => Sampler.against x.mean y.mean frame.count
  | .weightedSet values weights unit => do
    let xs ← evaluateAll body frames values
    let ws ← evaluateAll body frames weights
    let q ← sampleIn .one fun _ frame =>
      Sampler.weighted (xs.map (·.mean)) (ws.map (·.mean)) frame
    some <$> withUnits (inUnit · q unit)
  | .percentTwiddle x =>
    some <$> sampleIn .one fun confidence frame =>
      Sampler.percent (Scalar.ofDecimal x) confidence frame.count
  | .decibelTwiddle x =>
    some <$> sampleIn .one fun confidence frame =>
      Sampler.decibels (Scalar.ofDecimal x) confidence frame.count
  | .conversion expression target => do
    let q ← required expression (evaluateNode body frames expression)
    some <$> withUnits (convertTo · q target)
  | .call name arguments => do
    let values ← evaluateAll body frames arguments
    some <$> callFunction body frames name values
  | .letBinding name bound inner => do
    let q ← required bound (evaluateNode body frames bound)
    -- the name is bound for the inner expression and no longer
    some <$> required inner (evaluateNode body (.ofList [(name, q)] :: frames) inner)
  | .ifExpression condition yes no => do
    let c ← required condition (evaluateNode body frames condition)
    match c.value with
    | .scalar x =>
      if isTrue x then some <$> required yes (evaluateNode body frames yes)
      else some <$> required no (evaluateNode body frames no)
    | .sample s => do
      -- some particles may take one branch and some the other
      let x ← required yes (evaluateNode body frames yes)
      let y ← required no (evaluateNode body frames no)
      some <$> Evaluation.ofExcept (choose s x y)
  | .assignment name bound => do
    some <$> assign name (← required bound (evaluateNode body frames bound))
  | .unitDefinition name count definition => do
    let size : R := Scalar.ofDecimal count
    -- the count is looked at first, so the definition may draw nothing
    if Scalar.isZero size then throw (.parameter (.unitCount name))
    else some <$> defineUnit name size (← required definition (evaluateNode body frames definition))
  | .functionDefinition name parameters inner => do
    defineFunction ⟨name, parameters, inner⟩
    return none
  | .program statements => evaluateLast body frames none statements
  | .foreign kind => throw (.evaluation (.unknownNode kind))

/-- The values of nodes, each of which must have one. -/
def evaluateAll (body : TreeEvaluation R S) (frames : Frames R) :
    List Node → Evaluation R S (List (Quantity R))
  | [] => return []
  | node :: rest => do
    let q ← required node (evaluateNode body frames node)
    return q :: (← evaluateAll body frames rest)

/-- The value of the last of some nodes, which are evaluated in order; of none, the one given. -/
def evaluateLast (body : TreeEvaluation R S) (frames : Frames R) (value : Option (Quantity R)) :
    List Node → Evaluation R S (Option (Quantity R))
  | [] => return value
  | node :: rest => do
    let next ← evaluateNode body frames node
    evaluateLast body frames next rest

end

/-- The evaluation of a tree with fewer than `limit` calls inside one another. -/
def evaluateWithin : Nat → TreeEvaluation R S
  | 0, _, _ => throw .exhausted
  | limit + 1, frames, node => evaluateNode (evaluateWithin limit) frames node

end Session

end Ballpark
