import Ballpark.Proofs.Evaluation
import Ballpark.Proofs.ProgramShape

/-!
# Operations

Most nodes are evaluated in one way: the operands from left to right, then a step of the node's own that
knows nothing of the operands but their values (`Session.step`). Literals and names are the operations
without operands, and a call is one that goes on with the body of a function. What is left are bindings,
conditionals and statements, so a proof about evaluation has these few cases and one for all operations
(`Session.evaluateNode_operation`).
-/

namespace Ballpark

/-- Is the node an operation all of whose operands are evaluated before it? -/
def Node.isStrict : Node → Bool
  | .ifExpression .. => false
  | n => n.isOperation

/-- Is the node a call? -/
def Node.isCall : Node → Bool
  | .call .. => true
  | _ => false

/-- Every other operation is a conditional. -/
theorem Node.isStrict_or_of_isOperation {n : Node} (h : n.isOperation = true) :
    n.isStrict = true ∨ ∃ condition yes no, n = .ifExpression condition yes no := by
  cases n with
  | ifExpression condition yes no => exact .inr ⟨condition, yes, no, rfl⟩
  | _ => exact .inl h

/-- What follows an evaluation matters only for the values that it gives. -/
theorem Evaluation.bind_congr_of_ok {ε σ α β : Type} {m : ExceptT ε (StateM σ) α}
    {f g : α → ExceptT ε (StateM σ) β} (h : ∀ s a t, m.run s = (.ok a, t) → f a = g a) :
    m >>= f = m >>= g := by
  funext s
  rcases hm : m.run s with ⟨e | a, t⟩
  · exact (run_bind_of_error hm).trans (run_bind_of_error hm).symm
  · refine (run_bind_of_ok hm).trans ?_
    rw [h s a t hm]
    exact (run_bind_of_ok hm).symm

namespace Session

variable {R S : Type} [Scalar R] [RandomSource S R]

/-- What an operation that is no call makes of the values of its operands. -/
def step (frames : Frames R) : Node → List (Quantity R) → Evaluation R S (Option (Quantity R))
  | .number x unit, _ => some <$> withUnits (literal · (Scalar.ofDecimal x) unit)
  | .sigFig text unit, _ => some <$> sigFig text unit
  | .identifier name, _ => some <$> identifier frames name
  | .unit text, _ => some <$> withUnits (unitQuantity · text)
  | .binary op _ _, [x, y] => some <$> Evaluation.ofExcept (binary op x y)
  | .unary op _, [x] => some <$> Evaluation.ofExcept (unary op x)
  | .range _ right unit, [low, high] => do
    let b ← withUnits (strictBounds · right low high unit)
    some <$> sampleIn b.unit (Sampler.interval b.low b.high)
  | .uniformRange _ _ unit, [low, high] => do
    let b ← withUnits (looseBounds · low high true unit)
    some <$> sampleIn b.unit fun _ frame => Sampler.uniform b.low b.high frame
  | .normalRange _ _ unit, [center, width] => do
    let b ← withUnits (looseBounds · center width false unit)
    some <$> sampleIn b.unit (Sampler.normal (b.low - b.high) (b.low + b.high))
  | .betaOf _ _, [x, y] =>
    some <$> sampleIn .one fun _ frame => Sampler.outOf x.mean y.mean frame.count
  | .betaAgainst _ _, [x, y] =>
    some <$> sampleIn .one fun _ frame => Sampler.against x.mean y.mean frame.count
  | .weightedSet values _ unit, qs => do
    let q ← sampleIn .one fun _ frame =>
      Sampler.weighted ((qs.take values.length).map (·.mean)) ((qs.drop values.length).map (·.mean)) frame
    some <$> withUnits (inUnit · q unit)
  | .percentTwiddle x, _ =>
    some <$> sampleIn .one fun confidence frame =>
      Sampler.percent (Scalar.ofDecimal x) confidence frame.count
  | .decibelTwiddle x, _ =>
    some <$> sampleIn .one fun confidence frame =>
      Sampler.decibels (Scalar.ofDecimal x) confidence frame.count
  | .conversion _ target, [q] => some <$> withUnits (convertTo · q target)
  | n, _ => throw (.evaluation (.unknownNode n.kind))

/-- What an operation makes of the values of its operands, given how bodies of functions are evaluated. -/
def perform (body : TreeEvaluation R S) (frames : Frames R) (n : Node) (values : List (Quantity R)) :
    Evaluation R S (Option (Quantity R)) :=
  match n with
  | .call name _ => some <$> callFunction body frames name values
  | n => step frames n values

variable (body : TreeEvaluation R S) (frames : Frames R)

/-! ## Operands -/

/-- There are as many values as operands. -/
theorem length_of_evaluateAll {nodes : List Node} {s t : Session R S} {qs : List (Quantity R)}
    (h : (evaluateAll body frames nodes).run s = (.ok qs, t)) : qs.length = nodes.length := by
  induction nodes generalizing s qs with
  | nil =>
    rw [evaluateAll] at h
    cases h
    rfl
  | cons node rest ih =>
    rw [evaluateAll] at h
    obtain ⟨q, u, -, h⟩ := Evaluation.run_bind_eq_ok.mp h
    obtain ⟨rest', v, hrest, h⟩ := Evaluation.run_bind_eq_ok.mp h
    cases h
    rw [List.length_cons, List.length_cons, ih hrest]

theorem evaluateAll_append (before after : List Node) :
    evaluateAll body frames (before ++ after) = (do
      let qs ← evaluateAll body frames before
      return qs ++ (← evaluateAll body frames after)) := by
  induction before with
  | nil => simp [evaluateAll]
  | cons node rest ih =>
    simp only [List.cons_append, evaluateAll, ih, bind_assoc, pure_bind]

theorem perform_of_not_call {n : Node} (hn : n.isCall = false) :
    perform body frames n = step frames n := by
  cases n with
  | call => cases hn
  | _ => rfl

/-- **An operation evaluates its operands, then takes its step.** -/
theorem evaluateNode_operation {n : Node} (hn : n.isStrict = true) :
    evaluateNode body frames n =
      evaluateAll body frames n.operands >>= perform body frames n := by
  cases n with
  | ifExpression | letBinding | assignment | unitDefinition | functionDefinition | program | foreign =>
    cases hn
  | number | sigFig | identifier | unit | percentTwiddle | decibelTwiddle =>
    simp only [evaluateNode, Node.operands, evaluateAll, pure_bind, perform, step]
  | binary | range | uniformRange | normalRange | betaOf | betaAgainst =>
    simp only [evaluateNode, Node.operands, evaluateAll, bind_assoc, pure_bind, perform, step]
  | unary | conversion =>
    simp only [evaluateNode, Node.operands, evaluateAll, bind_assoc, pure_bind, perform, step]
  | call name arguments =>
    show _ = evaluateAll body frames arguments >>= fun qs => perform body frames (.call name arguments) qs
    simp only [evaluateNode, perform]
  | weightedSet values weights unit =>
    simp only [evaluateNode, Node.operands, evaluateAll_append, bind_assoc, pure_bind, perform, step]
    -- the values are told from the weights by their number
    refine Evaluation.bind_congr_of_ok fun s xs t hxs => ?_
    have hlength := length_of_evaluateAll body frames hxs
    simp only [← hlength, List.take_left, List.drop_left]

end Session

end Ballpark
