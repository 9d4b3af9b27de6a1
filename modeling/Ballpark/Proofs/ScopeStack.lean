import Ballpark.Proofs.Operation

/-!
# A stack of scopes

Evaluation is given the frames that its names are looked up in. An interpreter may as well keep them in
its state, as a stack: a binding or a call pushes a scope, evaluates what stands inside and pops the
scope again, also when that has failed (`ScopedEvaluation.inScope`). Evaluated in this way
(`Session.evaluateScoped`) a tree comes to the same, and the stack is left as it was found, whatever the
tree comes to and however deep the fault was (`Session.evaluateScopedWithin_follows`).
-/

namespace Ballpark

/-- A session with a stack of scopes. -/
structure ScopedSession (R S : Type) where
  /-- the scopes of bindings and calls, the innermost first -/
  opened : Frames R
  session : Session R S

namespace ScopedSession

variable {R S : Type}

/-- No scope is open but that of the session's variables. -/
def ofSession (session : Session R S) : ScopedSession R S :=
  ⟨[], session⟩

/-- The whole stack: the session's variables are in its last scope. -/
def scopes (s : ScopedSession R S) : Frames R :=
  s.opened ++ [s.session.values]

/-- Opens a scope. -/
def push (scope : Bindings (Quantity R)) (s : ScopedSession R S) : ScopedSession R S :=
  { s with opened := scope :: s.opened }

/-- Closes the innermost scope. -/
def pop (s : ScopedSession R S) : ScopedSession R S :=
  { s with opened := s.opened.tail }

end ScopedSession

/-- Computations on a session and its stack of scopes. -/
abbrev ScopedEvaluation (R S : Type) := ExceptT (Fault R) (StateM (ScopedSession R S))

namespace ScopedEvaluation

variable {R S α β : Type}

/-- A computation on the session that may read the scopes. -/
def onSession (m : Frames R → Evaluation R S α) : ScopedEvaluation R S α :=
  ExceptT.mk fun s =>
    let (result, session) := (m s.opened).run s.session
    (result, { s with session })

/-- A computation inside a scope, which is closed whatever the computation comes to. -/
def inScope (scope : Bindings (Quantity R)) (m : ScopedEvaluation R S α) : ScopedEvaluation R S α :=
  ExceptT.mk fun s =>
    let (result, t) := m.run (s.push scope)
    (result, t.pop)

/-- The value of a node that must have one, given its evaluation. -/
def requiredScoped (node : Node) (result : ScopedEvaluation R S (Option (Quantity R))) :
    ScopedEvaluation R S (Quantity R) := do
  match ← result with
  | some q => return q
  | none => throw (.evaluation (.noValue node.kind))

/-! ## Following the evaluation in frames -/

/-- A computation on a stack does what an evaluation does in the open scopes, and leaves the stack as
it was. -/
def Follows (m : ScopedEvaluation R S α) (f : Frames R → Evaluation R S α) : Prop :=
  ∀ s, m.run s = (((f s.opened).run s.session).1, ⟨s.opened, ((f s.opened).run s.session).2⟩)

namespace Follows

theorem onSession (f : Frames R → Evaluation R S α) : Follows (onSession f) f :=
  fun _ => rfl

theorem pure (a : α) : Follows (Pure.pure a : ScopedEvaluation R S α) fun _ => Pure.pure a :=
  fun _ => rfl

theorem throw (e : Fault R) :
    Follows (MonadExcept.throw e : ScopedEvaluation R S α) fun _ => MonadExcept.throw e :=
  fun _ => rfl

theorem bind {m : ScopedEvaluation R S α} {f : Frames R → Evaluation R S α}
    {k : α → ScopedEvaluation R S β} {g : α → Frames R → Evaluation R S β} (hm : Follows m f)
    (hk : ∀ a, Follows (k a) (g a)) : Follows (m >>= k) fun F => f F >>= fun a => g a F := by
  intro s
  have hstep := hm s
  rcases hf : (f s.opened).run s.session with ⟨e | a, t⟩
  · rw [hf] at hstep
    rw [Evaluation.run_bind_of_error hstep, Evaluation.run_bind_of_error hf]
  · rw [hf] at hstep
    rw [Evaluation.run_bind_of_ok hstep, Evaluation.run_bind_of_ok hf]
    exact hk a ⟨s.opened, t⟩

theorem some {m : ScopedEvaluation R S α} {f : Frames R → Evaluation R S α} (hm : Follows m f) :
    Follows (Option.some <$> m) fun F => Option.some <$> f F := by
  simp only [map_eq_pure_bind]
  exact hm.bind fun a => .pure (Option.some a)

theorem ite {c : Prop} [Decidable c] {m n : ScopedEvaluation R S α} {f g : Frames R → Evaluation R S α}
    (hm : Follows m f) (hn : Follows n g) :
    Follows (if c then m else n) fun F => if c then f F else g F := by
  split
  · exact hm
  · exact hn

theorem required {n : Node} {m : ScopedEvaluation R S (Option (Quantity R))}
    {f : Frames R → Evaluation R S (Option (Quantity R))} (hm : Follows m f) :
    Follows (requiredScoped n m) fun F => Session.required n (f F) := by
  refine hm.bind fun value => ?_
  rcases value with _ | q
  · exact .throw _
  · exact .pure q

/-- A scope is open while the inner computation runs, and no longer. -/
theorem inScope {m : ScopedEvaluation R S α} {f : Frames R → Evaluation R S α} (hm : Follows m f)
    (scope : Bindings (Quantity R)) : Follows (inScope scope m) fun F => f (scope :: F) := by
  intro s
  have hinner : (m.inScope scope).run s = ((m.run (s.push scope)).1, (m.run (s.push scope)).2.pop) := rfl
  rw [hinner, hm (s.push scope)]
  rfl

end Follows

end ScopedEvaluation

namespace Session

open ScopedEvaluation

variable {R S : Type} [Scalar R] [RandomSource S R]

/-- How a tree is evaluated on a stack of scopes. -/
abbrev ScopedTreeEvaluation (R S : Type) := Node → ScopedEvaluation R S (Option (Quantity R))

/-- The value of a call: the arguments are in a scope of their own while the body is evaluated. -/
def callScoped (body : ScopedTreeEvaluation R S) (name : String) (arguments : List (Quantity R)) :
    ScopedEvaluation R S (Quantity R) := do
  match (← onSession fun _ => get).functions.get? name with
  | some function =>
    let scope ← onSession fun _ => Evaluation.ofExcept (callFrame function arguments)
    inScope scope (requiredScoped function.body (body function.body))
  | none => onSession fun _ => callBuiltin name arguments

/-- The step of an operation that is no call: it opens no scope. -/
def stepScoped (n : Node) (values : List (Quantity R)) : ScopedEvaluation R S (Option (Quantity R)) :=
  onSession fun F => step F n values

mutual

/-- The value of a node, if it has one, on a stack of scopes. -/
def evaluateScoped (body : ScopedTreeEvaluation R S) (n : Node) :
    ScopedEvaluation R S (Option (Quantity R)) :=
  match n with
  | .number .. | .sigFig .. | .identifier _ | .unit _ | .percentTwiddle _ | .decibelTwiddle _ =>
    stepScoped n []
  | .unary _ operand | .conversion operand _ => do
    let x ← requiredScoped operand (evaluateScoped body operand)
    stepScoped n [x]
  | .binary _ left right | .range left right _ | .uniformRange left right _ | .normalRange left right _
  | .betaOf left right | .betaAgainst left right => do
    let x ← requiredScoped left (evaluateScoped body left)
    let y ← requiredScoped right (evaluateScoped body right)
    stepScoped n [x, y]
  | .weightedSet values weights _ => do
    let xs ← evaluateScopedAll body values
    let ws ← evaluateScopedAll body weights
    stepScoped n (xs ++ ws)
  | .call name arguments => do
    let values ← evaluateScopedAll body arguments
    some <$> callScoped body name values
  | .letBinding name bound inner => do
    let q ← requiredScoped bound (evaluateScoped body bound)
    some <$> inScope (.ofList [(name, q)]) (requiredScoped inner (evaluateScoped body inner))
  | .ifExpression condition yes no => do
    let c ← requiredScoped condition (evaluateScoped body condition)
    match c.value with
    | .scalar x =>
      if isTrue x then some <$> requiredScoped yes (evaluateScoped body yes)
      else some <$> requiredScoped no (evaluateScoped body no)
    | .sample s => do
      let x ← requiredScoped yes (evaluateScoped body yes)
      let y ← requiredScoped no (evaluateScoped body no)
      some <$> onSession fun _ => Evaluation.ofExcept (choose s x y)
  | .assignment name bound => do
    let q ← requiredScoped bound (evaluateScoped body bound)
    some <$> onSession fun _ => assign name q
  | .unitDefinition name count definition => do
    let size : R := Scalar.ofDecimal count
    if Scalar.isZero size then throw (.parameter (.unitCount name))
    else
      let q ← requiredScoped definition (evaluateScoped body definition)
      some <$> onSession fun _ => defineUnit name size q
  | .functionDefinition name parameters inner => do
    onSession fun _ => defineFunction ⟨name, parameters, inner⟩
    return none
  | .program statements => evaluateScopedLast body none statements
  | .foreign kind => throw (.evaluation (.unknownNode kind))

/-- The values of nodes, each of which must have one. -/
def evaluateScopedAll (body : ScopedTreeEvaluation R S) :
    List Node → ScopedEvaluation R S (List (Quantity R))
  | [] => return []
  | node :: rest => do
    let q ← requiredScoped node (evaluateScoped body node)
    return q :: (← evaluateScopedAll body rest)

/-- The value of the last of some nodes; of none, the one given. -/
def evaluateScopedLast (body : ScopedTreeEvaluation R S) (value : Option (Quantity R)) :
    List Node → ScopedEvaluation R S (Option (Quantity R))
  | [] => return value
  | node :: rest => do
    let next ← evaluateScoped body node
    evaluateScopedLast body next rest

end

/-- The evaluation of a tree with fewer than `limit` calls inside one another. -/
def evaluateScopedWithin : Nat → ScopedTreeEvaluation R S
  | 0, _ => throw .exhausted
  | limit + 1, node => evaluateScoped (evaluateScopedWithin limit) node

/-! ## Both evaluations agree -/

variable {stacked : ScopedTreeEvaluation R S} {body : TreeEvaluation R S}

theorem callScoped_follows (hbody : ∀ node, Follows (stacked node) fun F => body F node) (name : String)
    (arguments : List (Quantity R)) :
    Follows (callScoped stacked name arguments) fun F => callFunction body F name arguments := by
  refine .bind (.onSession fun _ => get) fun s => ?_
  rcases s.functions.get? name with _ | function
  · exact .onSession fun _ => callBuiltin name arguments
  · refine .bind (.onSession fun _ => Evaluation.ofExcept (callFrame function arguments)) fun scope => ?_
    exact (hbody function.body).required.inScope scope

theorem stepScoped_follows {n : Node} (hn : n.isCall = false)
    (values : List (Quantity R)) :
    Follows (stepScoped n values) fun F => perform (S := S) body F n values := by
  simp only [perform_of_not_call _ _ hn]
  exact .onSession fun F => step F n values

section

variable {n : Node} (hn : n.isStrict = true) (hcall : n.isCall = false)
include hn hcall

theorem leaf_follows (hoperands : n.operands = []) :
    Follows (stepScoped n []) fun F => evaluateNode body F n := by
  simp only [evaluateNode_operation _ _ hn, hoperands, evaluateAll, pure_bind]
  exact stepScoped_follows hcall _

theorem single_follows {operand : Node} (hoperands : n.operands = [operand])
    (h : Follows (evaluateScoped stacked operand) fun F => evaluateNode body F operand) :
    Follows (do
      let x ← requiredScoped operand (evaluateScoped stacked operand)
      stepScoped n [x]) fun F => evaluateNode body F n := by
  simp only [evaluateNode_operation _ _ hn, hoperands, evaluateAll, bind_assoc, pure_bind]
  exact h.required.bind fun _ => stepScoped_follows hcall _

theorem pair_follows {left right : Node} (hoperands : n.operands = [left, right])
    (hleft : Follows (evaluateScoped stacked left) fun F => evaluateNode body F left)
    (hright : Follows (evaluateScoped stacked right) fun F => evaluateNode body F right) :
    Follows (do
      let x ← requiredScoped left (evaluateScoped stacked left)
      let y ← requiredScoped right (evaluateScoped stacked right)
      stepScoped n [x, y]) fun F => evaluateNode body F n := by
  simp only [evaluateNode_operation _ _ hn, hoperands, evaluateAll, bind_assoc, pure_bind]
  exact hleft.required.bind fun _ => hright.required.bind fun _ => stepScoped_follows hcall _

end

mutual

theorem evaluateScoped_follows (hbody : ∀ node, Follows (stacked node) fun F => body F node) (n : Node) :
    Follows (evaluateScoped stacked n) fun F => evaluateNode body F n := by
  match n with
  | .number .. | .sigFig .. | .identifier _ | .unit _ | .percentTwiddle _ | .decibelTwiddle _ =>
    rw [evaluateScoped]
    exact leaf_follows rfl rfl rfl
  | .unary _ operand | .conversion operand _ =>
    rw [evaluateScoped]
    exact single_follows rfl rfl rfl (evaluateScoped_follows hbody operand)
  | .binary _ left right | .range left right _ | .uniformRange left right _ | .normalRange left right _
  | .betaOf left right | .betaAgainst left right =>
    rw [evaluateScoped]
    exact pair_follows rfl rfl rfl (evaluateScoped_follows hbody left)
      (evaluateScoped_follows hbody right)
  | .weightedSet values weights unit =>
    have hn : (Node.weightedSet values weights unit).isStrict = true := rfl
    simp only [evaluateScoped, evaluateNode_operation _ _ hn, Node.operands, evaluateAll_append,
      bind_assoc, pure_bind]
    refine (evaluateScopedAll_follows hbody values).bind fun xs => ?_
    refine (evaluateScopedAll_follows hbody weights).bind fun ws => ?_
    exact stepScoped_follows rfl _
  | .call name arguments =>
    simp only [evaluateScoped, evaluateNode]
    refine (evaluateScopedAll_follows hbody arguments).bind fun values => ?_
    exact (callScoped_follows hbody name values).some
  | .letBinding name bound inner =>
    simp only [evaluateScoped, evaluateNode]
    refine (evaluateScoped_follows hbody bound).required.bind fun q => ?_
    exact ((evaluateScoped_follows hbody inner).required.inScope _).some
  | .ifExpression condition yes no =>
    simp only [evaluateScoped, evaluateNode]
    refine (evaluateScoped_follows hbody condition).required.bind fun q => ?_
    have hyes := (evaluateScoped_follows hbody yes).required (n := yes)
    have hno := (evaluateScoped_follows hbody no).required (n := no)
    rcases q.value with x | s
    · exact .ite hyes.some hno.some
    · exact hyes.bind fun x => hno.bind fun y => (Follows.onSession _).some
  | .assignment name bound =>
    simp only [evaluateScoped, evaluateNode]
    refine (evaluateScoped_follows hbody bound).required.bind fun q => ?_
    exact (Follows.onSession _).some
  | .unitDefinition name count definition =>
    simp only [evaluateScoped, evaluateNode]
    refine .ite (.throw _) ?_
    refine (evaluateScoped_follows hbody definition).required.bind fun q => ?_
    exact (Follows.onSession _).some
  | .functionDefinition name parameters inner =>
    simp only [evaluateScoped, evaluateNode]
    exact (Follows.onSession _).bind fun _ => .pure none
  | .program statements =>
    simp only [evaluateScoped, evaluateNode]
    exact evaluateScopedLast_follows hbody none statements
  | .foreign kind =>
    simp only [evaluateScoped, evaluateNode]
    exact .throw _

theorem evaluateScopedAll_follows (hbody : ∀ node, Follows (stacked node) fun F => body F node)
    (nodes : List Node) :
    Follows (evaluateScopedAll stacked nodes) fun F => evaluateAll body F nodes := by
  match nodes with
  | [] =>
    simp only [evaluateScopedAll, evaluateAll]
    exact .pure []
  | node :: rest =>
    simp only [evaluateScopedAll, evaluateAll]
    refine (evaluateScoped_follows hbody node).required.bind fun q => ?_
    exact (evaluateScopedAll_follows hbody rest).bind fun qs => .pure (q :: qs)

theorem evaluateScopedLast_follows (hbody : ∀ node, Follows (stacked node) fun F => body F node)
    (value : Option (Quantity R)) (nodes : List Node) :
    Follows (evaluateScopedLast stacked value nodes) fun F => evaluateLast body F value nodes := by
  match nodes with
  | [] =>
    simp only [evaluateScopedLast, evaluateLast]
    exact .pure value
  | node :: rest =>
    simp only [evaluateScopedLast, evaluateLast]
    refine (evaluateScoped_follows hbody node).bind fun next => ?_
    exact evaluateScopedLast_follows hbody next rest

end

/-- **The stack is left as it was found**, and all else is as it is in frames: induction on the number of
calls that may still be opened. -/
theorem evaluateScopedWithin_follows (limit : Nat) (node : Node) :
    Follows (evaluateScopedWithin limit node) fun F => evaluateWithin (R := R) (S := S) limit F node := by
  induction limit generalizing node with
  | zero => exact .throw _
  | succ limit ih => exact evaluateScoped_follows ih node

end Session

end Ballpark
