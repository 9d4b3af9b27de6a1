import Ballpark.Proofs.Bindings
import Ballpark.Proofs.Evaluation
import Ballpark.Proofs.Outcome

/-!
# What evaluation preserves

Many statements about evaluation have one shape: an invariant of sessions is kept, every value has a
property, and every fault is of some class. A `Contract` is such a triple, and it holds if each single
step of evaluation keeps to it (`Contract.Holds`): reading a literal, applying an operator, drawing a
range, calling a builtin function, setting a variable. Then whole trees keep to it
(`Contract.Holds.evaluateTree_keeps`), by induction on the tree, and for the functions of the program on
the number of calls that may still be opened.
-/

namespace Ballpark

open Session

/-- An invariant of sessions, a property of values and a class of faults. -/
structure Contract (R S : Type) where
  /-- what is kept of the session -/
  Inv : Session R S → Prop
  /-- what values have -/
  Val : Quantity R → Prop
  /-- what faults are like -/
  Err : Fault R → Prop

namespace Contract

variable {R S : Type} {c : Contract R S}

/-- A value, if there is one, keeps to the contract. -/
def Opt (c : Contract R S) (value : Option (Quantity R)) : Prop :=
  ∀ q, value = some q → c.Val q

/-- An evaluation that keeps to the contract. -/
abbrev Kept (c : Contract R S) (m : Evaluation R S (Quantity R)) : Prop :=
  Keeps c.Inv m c.Val c.Err

/-- An evaluation whose value may be missing keeps to the contract. -/
abbrev KeptOpt (c : Contract R S) (m : Evaluation R S (Option (Quantity R))) : Prop :=
  Keeps c.Inv m c.Opt c.Err

/-- Values in frames keep to the contract. -/
def Framed (c : Contract R S) (F : Frames R) : Prop :=
  ∀ b ∈ F, b.All c.Val

theorem framed_nil : c.Framed [] :=
  fun _ h => absurd h List.not_mem_nil

theorem Framed.cons {F : Frames R} (h : c.Framed F) {b : Bindings (Quantity R)} (hb : b.All c.Val) :
    c.Framed (b :: F) :=
  List.forall_mem_cons.mpr ⟨hb, h⟩

theorem Framed.lookup {F : Frames R} (h : c.Framed F) {name : String} {q : Quantity R}
    (hq : F.findSome? (·.get? name) = some q) : c.Val q := by
  obtain ⟨b, hb, hget⟩ := List.exists_of_findSome?_eq_some hq
  exact h b hb name q hget

variable [Scalar R] [RandomSource S R]

/-- The bodies of functions are evaluated in a way that keeps to the contract. -/
def Bodies (c : Contract R S) (body : TreeEvaluation R S) : Prop :=
  ∀ F node, c.Framed F → c.KeptOpt (body F node)

/-- Every step of evaluation keeps to the contract, given operands that do. -/
structure Holds (c : Contract R S) : Prop where
  /-- the calculator may refuse -/
  calculators : ∀ f, f.isCalculators = true → c.Err f
  exhausted : c.Err .exhausted
  literal : ∀ x unit, c.Kept (withUnits (literal · x unit))
  sigFig : ∀ text unit, c.Kept (sigFig text unit)
  valueOf : ∀ name, c.KeptOpt (valueOf? name)
  /-- a name that is read as a unit -/
  unitName : ∀ name, Ends (Quantity.ofText (.scalar (Scalar.ofNat 1 : R)) name) c.Val c.Err
  unit : ∀ text, c.Kept (withUnits (unitQuantity · text))
  binary : ∀ op {x y}, c.Val x → c.Val y → Ends (binary op x y) c.Val c.Err
  unary : ∀ op {x}, c.Val x → Ends (unary op x) c.Val c.Err
  /-- the bounds of a range are drawn from -/
  range : ∀ right unit {x y}, c.Val x → c.Val y →
    Keeps c.Inv (withUnits (strictBounds · right x y unit))
      (fun b => c.Kept (sampleIn b.unit (Sampler.interval b.low b.high))) c.Err
  uniformRange : ∀ unit {x y}, c.Val x → c.Val y →
    Keeps c.Inv (withUnits (looseBounds · x y true unit))
      (fun b => c.Kept (sampleIn b.unit fun _ frame => Sampler.uniform b.low b.high frame)) c.Err
  normalRange : ∀ unit {x y}, c.Val x → c.Val y →
    Keeps c.Inv (withUnits (looseBounds · x y false unit))
      (fun b => c.Kept (sampleIn b.unit (Sampler.normal (b.low - b.high) (b.low + b.high)))) c.Err
  outOf : ∀ x y, c.Kept (sampleIn .one fun _ frame => Sampler.outOf x y frame.count)
  against : ∀ x y, c.Kept (sampleIn .one fun _ frame => Sampler.against x y frame.count)
  weighted : ∀ xs ws, c.Kept (sampleIn .one fun _ frame => Sampler.weighted xs ws frame)
  percent : ∀ x, c.Kept (sampleIn .one fun confidence frame =>
    Sampler.percent x confidence frame.count)
  decibels : ∀ x, c.Kept (sampleIn .one fun confidence frame =>
    Sampler.decibels x confidence frame.count)
  inUnit : ∀ unit {q}, c.Val q → c.Kept (withUnits (inUnit · q unit))
  convertTo : ∀ target {q}, c.Val q → c.Kept (withUnits (convertTo · q target))
  choose : ∀ {q s x y}, c.Val q → q.value = .sample s → c.Val x → c.Val y →
    Ends (choose s x y) c.Val c.Err
  builtin : ∀ name {arguments}, (∀ q ∈ arguments, c.Val q) → c.Kept (callBuiltin name arguments)
  assign : ∀ name {q}, c.Val q → c.Kept (assign name q)
  defineUnit : ∀ name count {q}, c.Val q → c.Kept (defineUnit name count q)
  defineFunction : ∀ function, Keeps c.Inv (defineFunction function) (fun _ => True) c.Err

/-! ## Parts of evaluations -/

omit [Scalar R] [RandomSource S R] in
theorem kept_ofExcept {e : Except (Fault R) (Quantity R)} (h : Ends e c.Val c.Err) :
    c.Kept (Evaluation.ofExcept e) :=
  fun _ hs => ⟨h, hs⟩

omit [Scalar R] [RandomSource S R] in
theorem kept_some {m : Evaluation R S (Quantity R)} (h : c.Kept m) : c.KeptOpt (some <$> m) := by
  rw [map_eq_pure_bind]
  refine h.bind fun q hq => .pure fun p hp => ?_
  exact Option.some.inj hp ▸ hq

namespace Holds

variable (h : c.Holds)
include h

theorem required (node : Node) {m : Evaluation R S (Option (Quantity R))} (hm : c.KeptOpt m) :
    c.Kept (Session.required node m) := by
  refine hm.bind fun value hvalue => ?_
  rcases value with _ | q
  · exact .throw (h.calculators _ rfl)
  · exact .pure (hvalue q rfl)

theorem identifier {F : Frames R} (hF : c.Framed F) (name : String) :
    c.Kept (Session.identifier F name) := by
  have hlookup : c.KeptOpt (lookup? F name) := by
    rw [lookup?]
    split
    · rename_i q hq
      exact .pure fun p hp => Option.some.inj hp ▸ hF.lookup hq
    · exact h.valueOf name
  refine hlookup.bind fun value hvalue => ?_
  rcases value with _ | q
  · have hread := h.unitName name
    dsimp only
    split
    · exact .bind .get fun _ _ => .throw (h.calculators _ rfl)
    · exact kept_ofExcept hread
  · exact .pure (hvalue q rfl)

theorem callFunction {body : TreeEvaluation R S} (hbody : c.Bodies body) {F : Frames R}
    (hF : c.Framed F) (name : String) {arguments : List (Quantity R)}
    (harguments : ∀ q ∈ arguments, c.Val q) : c.Kept (Session.callFunction body F name arguments) := by
  refine .bind .get fun s _ => ?_
  split
  · -- a function of the program: its body, in a frame with the arguments
    rename_i function _
    have hframe : Keeps c.Inv (Evaluation.ofExcept (S := S) (callFrame function arguments))
        (Bindings.All c.Val) c.Err := by
      refine fun t ht => ⟨?_, ht⟩
      show Ends (callFrame function arguments) _ _
      rw [callFrame]
      split
      · refine .ok (Bindings.All.ofList fun e he => ?_)
        exact harguments e.2 (List.of_mem_zip he).2
      · exact .error (h.calculators _ rfl)
    exact hframe.bind fun frame hb => h.required _ (hbody _ _ (hF.cons hb))
  · exact h.builtin name harguments

end Holds

/-! ## Whole trees -/

namespace Holds

mutual

theorem evaluateNode_keeps (h : c.Holds) {body : TreeEvaluation R S} (hbody : c.Bodies body)
    (node : Node) {F : Frames R} (hF : c.Framed F) : c.KeptOpt (evaluateNode body F node) := by
  match node with
  -- leaves: each is a step of the contract
  | .number x unit =>
    rw [evaluateNode]
    exact kept_some (h.literal _ _)
  | .sigFig text unit =>
    rw [evaluateNode]
    exact kept_some (h.sigFig _ _)
  | .identifier name =>
    rw [evaluateNode]
    exact kept_some (h.identifier hF name)
  | .unit text =>
    rw [evaluateNode]
    exact kept_some (h.unit text)
  -- operators and ranges: both operands, then the step
  | .binary op left right =>
    rw [evaluateNode]
    refine (h.required _ (h.evaluateNode_keeps hbody left hF)).bind fun x hx => ?_
    refine (h.required _ (h.evaluateNode_keeps hbody right hF)).bind fun y hy => ?_
    exact kept_some (kept_ofExcept (h.binary op hx hy))
  | .unary op operand =>
    rw [evaluateNode]
    refine (h.required _ (h.evaluateNode_keeps hbody operand hF)).bind fun x hx => ?_
    exact kept_some (kept_ofExcept (h.unary op hx))
  | .range left right unit =>
    rw [evaluateNode]
    refine (h.required _ (h.evaluateNode_keeps hbody left hF)).bind fun x hx => ?_
    refine (h.required _ (h.evaluateNode_keeps hbody right hF)).bind fun y hy => ?_
    exact (h.range right unit hx hy).bind fun b hb => kept_some hb
  | .uniformRange left right unit =>
    rw [evaluateNode]
    refine (h.required _ (h.evaluateNode_keeps hbody left hF)).bind fun x hx => ?_
    refine (h.required _ (h.evaluateNode_keeps hbody right hF)).bind fun y hy => ?_
    exact (h.uniformRange unit hx hy).bind fun b hb => kept_some hb
  | .normalRange mean spread unit =>
    rw [evaluateNode]
    refine (h.required _ (h.evaluateNode_keeps hbody mean hF)).bind fun x hx => ?_
    refine (h.required _ (h.evaluateNode_keeps hbody spread hF)).bind fun y hy => ?_
    exact (h.normalRange unit hx hy).bind fun b hb => kept_some hb
  | .betaOf successes total =>
    rw [evaluateNode]
    refine (h.required _ (h.evaluateNode_keeps hbody successes hF)).bind fun x _ => ?_
    refine (h.required _ (h.evaluateNode_keeps hbody total hF)).bind fun y _ => ?_
    exact kept_some (h.outOf _ _)
  | .betaAgainst pro contra =>
    rw [evaluateNode]
    refine (h.required _ (h.evaluateNode_keeps hbody pro hF)).bind fun x _ => ?_
    refine (h.required _ (h.evaluateNode_keeps hbody contra hF)).bind fun y _ => ?_
    exact kept_some (h.against _ _)
  | .weightedSet values weights unit =>
    rw [evaluateNode]
    refine (h.evaluateAll_keeps hbody values hF).bind fun xs _ => ?_
    refine (h.evaluateAll_keeps hbody weights hF).bind fun ws _ => ?_
    exact (h.weighted _ _).bind fun q hq => kept_some (h.inUnit unit hq)
  | .percentTwiddle x =>
    rw [evaluateNode]
    exact kept_some (h.percent _)
  | .decibelTwiddle x =>
    rw [evaluateNode]
    exact kept_some (h.decibels _)
  | .conversion expression target =>
    rw [evaluateNode]
    refine (h.required _ (h.evaluateNode_keeps hbody expression hF)).bind fun q hq => ?_
    exact kept_some (h.convertTo target hq)
  | .call name arguments =>
    rw [evaluateNode]
    refine (h.evaluateAll_keeps hbody arguments hF).bind fun values hvalues => ?_
    exact kept_some (h.callFunction hbody hF name hvalues)
  | .letBinding name bound inner =>
    rw [evaluateNode]
    refine (h.required _ (h.evaluateNode_keeps hbody bound hF)).bind fun q hq => ?_
    refine kept_some (h.required _ ?_)
    -- the name is bound while the inner expression is evaluated, and no longer
    refine h.evaluateNode_keeps hbody inner (hF.cons (Bindings.All.ofList ?_))
    intro e he
    rw [List.mem_singleton.mp he]
    exact hq
  | .ifExpression condition yes no =>
    rw [evaluateNode]
    refine (h.required _ (h.evaluateNode_keeps hbody condition hF)).bind fun q hq => ?_
    have hyes := h.required yes (h.evaluateNode_keeps hbody yes hF)
    have hno := h.required no (h.evaluateNode_keeps hbody no hF)
    rcases hvalue : q.value with x | s
    · exact .ite (fun _ => kept_some hyes) fun _ => kept_some hno
    · -- an uncertain condition needs both branches
      refine hyes.bind fun x hx => hno.bind fun y hy => kept_some (kept_ofExcept ?_)
      exact h.choose hq hvalue hx hy
  -- statements: what they store is in the invariant
  | .assignment name bound =>
    rw [evaluateNode]
    refine (h.required _ (h.evaluateNode_keeps hbody bound hF)).bind fun q hq => ?_
    exact kept_some (h.assign name hq)
  | .unitDefinition name count definition =>
    rw [evaluateNode]
    refine .ite (fun _ => .throw (h.calculators _ rfl)) fun _ => ?_
    refine (h.required _ (h.evaluateNode_keeps hbody definition hF)).bind fun q hq => ?_
    exact kept_some (h.defineUnit name _ hq)
  | .functionDefinition name parameters inner =>
    rw [evaluateNode]
    exact (h.defineFunction _).bind fun _ _ => .pure fun _ hq => nomatch hq
  | .program statements =>
    rw [evaluateNode]
    exact h.evaluateLast_keeps hbody statements hF fun _ hq => nomatch hq
  | .foreign kind =>
    rw [evaluateNode]
    exact .throw (h.calculators _ rfl)

theorem evaluateAll_keeps (h : c.Holds) {body : TreeEvaluation R S} (hbody : c.Bodies body)
    (nodes : List Node) {F : Frames R} (hF : c.Framed F) :
    Keeps c.Inv (evaluateAll body F nodes) (fun qs => ∀ q ∈ qs, c.Val q) c.Err := by
  match nodes with
  | [] =>
    rw [evaluateAll]
    exact .pure fun _ hq => absurd hq List.not_mem_nil
  | node :: rest =>
    rw [evaluateAll]
    refine (h.required _ (h.evaluateNode_keeps hbody node hF)).bind fun q hq => ?_
    refine (h.evaluateAll_keeps hbody rest hF).bind fun qs hqs => ?_
    exact .pure (List.forall_mem_cons.mpr ⟨hq, hqs⟩)

theorem evaluateLast_keeps (h : c.Holds) {body : TreeEvaluation R S} (hbody : c.Bodies body)
    (nodes : List Node) {F : Frames R} (hF : c.Framed F) {value : Option (Quantity R)} (hvalue : c.Opt value) :
    c.KeptOpt (evaluateLast body F value nodes) := by
  match nodes with
  | [] =>
    rw [evaluateLast]
    exact .pure hvalue
  | node :: rest =>
    rw [evaluateLast]
    exact (h.evaluateNode_keeps hbody node hF).bind fun next hnext =>
      h.evaluateLast_keeps hbody rest hF hnext

end

/-- Induction on the number of calls that may still be opened. -/
theorem evaluateWithin_keeps (h : c.Holds) (limit : Nat) : c.Bodies (evaluateWithin limit) := by
  induction limit with
  | zero => exact fun _ _ _ => .throw h.exhausted
  | succ limit ih => exact fun F node hF => h.evaluateNode_keeps ih node hF

/-- **Whole evaluations** keep to a contract that their steps keep to. -/
theorem evaluateTree_keeps (h : c.Holds) (node : Node) : c.KeptOpt (evaluateTree node) :=
  h.evaluateWithin_keeps (callLimit + 1) [] node framed_nil

end Holds

end Contract

end Ballpark
