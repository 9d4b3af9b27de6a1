import Ballpark.Proofs.Bindings
import Ballpark.Proofs.ConstantMemory
import Ballpark.Proofs.ExpressionRules
import Ballpark.Proofs.Recovery
import Ballpark.Proofs.ScopeStack
import Ballpark.Proofs.NodeEquality

/-!
# What a statement changes

The evaluation of an expression changes nothing of a session but the random source, and the table of
constants, which only grows (`Session.Advances`). That holds also where the expression fails, and through
the calls of a program's functions, whose bodies are expressions (`Session.HasExpressionBodies`). So a
statement that fails has changed nothing else, one that succeeds has changed what it defines
(`Session.define`), and either way the stack of scopes is as it was (`Session.statement_effect`).
-/

namespace Ballpark

/-- The name that a statement defines. -/
def Node.definedName? : Node → Option String
  | .assignment name _ | .unitDefinition name _ _ | .functionDefinition name _ _ => some name
  | _ => none

namespace Session

open Evaluation

variable {R S : Type}

/-- One session is another but for the random source and the constants that have been drawn since. -/
structure Advances (s t : Session R S) : Prop where
  settings : t.settings = s.settings
  values : t.values = s.values
  pins : t.pins = s.pins
  functions : t.functions = s.functions
  units : t.units = s.units
  /-- constants keep the values that they have been drawn with -/
  constants : ∀ name q, s.constants.get? name = some q → t.constants.get? name = some q

namespace Advances

theorem refl (s : Session R S) : s.Advances s :=
  ⟨rfl, rfl, rfl, rfl, rfl, fun _ _ h => h⟩

theorem trans {s t u : Session R S} (h : s.Advances t) (k : t.Advances u) : s.Advances u :=
  ⟨k.settings.trans h.settings, k.values.trans h.values, k.pins.trans h.pins,
    k.functions.trans h.functions, k.units.trans h.units,
    fun name q hq => k.constants name q (h.constants name q hq)⟩

theorem source (s : Session R S) (source : S) : s.Advances { s with source } :=
  ⟨rfl, rfl, rfl, rfl, rfl, fun _ _ h => h⟩

end Advances

/-- The bodies of the functions are expressions, as those that a program defines are. -/
def HasExpressionBodies (s : Session R S) : Prop :=
  s.functions.All fun function => function.body.IsExpression

/-- And the texts in them are made of the words of a program. -/
def HasWrittenBodies (s : Session R S) : Prop :=
  s.functions.All fun function => function.body.IsWrittenExpression

theorem HasWrittenBodies.hasExpressionBodies {s : Session R S} (h : s.HasWrittenBodies) :
    s.HasExpressionBodies :=
  fun name function hfunction => (h name function hfunction).isExpression

theorem Advances.hasWrittenBodies {s t : Session R S} (h : s.Advances t) (hs : s.HasWrittenBodies) :
    t.HasWrittenBodies := by
  rw [HasWrittenBodies, h.functions]
  exact hs

theorem Advances.hasExpressionBodies {s t : Session R S} (h : s.Advances t)
    (hs : s.HasExpressionBodies) : t.HasExpressionBodies := by
  rw [HasExpressionBodies, h.functions]
  exact hs

/-! ## Definitions -/

/-- The session with what a statement defines, given the value of the statement. -/
def define (statement : Node) (value : Option (Quantity R)) (s : Session R S) : Session R S :=
  match statement, value with
  | .assignment name _, some q => s.setVariable name q
  | .unitDefinition name _ _, some q => { s with units := s.units.set name q }
  | .functionDefinition name parameters body, _ =>
    { s with functions := s.functions.set name ⟨name, parameters, body⟩ }
  | _, _ => s

/-- Two sessions hold the same under every name but one, if any. -/
structure AgreesBut (name? : Option String) (s t : Session R S) : Prop where
  settings : t.settings = s.settings
  pins : t.pins = s.pins
  values : ∀ other, name? ≠ some other → t.values.get? other = s.values.get? other
  functions : ∀ other, name? ≠ some other → t.functions.get? other = s.functions.get? other
  units : ∀ other, name? ≠ some other → t.units.get? other = s.units.get? other

/-- What is defined is under the one name of the statement. -/
theorem agreesBut_define (n : Node) (value : Option (Quantity R)) (s : Session R S) :
    AgreesBut n.definedName? s (s.define n value) := by
  have hset : ∀ {V : Type} {b : Bindings V} {name other : String} {x : V}, some name ≠ some other →
      (b.set name x).get? other = b.get? other := by
    intro V b name other x hne
    rw [Bindings.get?_set, if_neg fun heq => hne (congrArg some heq.symm)]
  rw [define.eq_def]
  split
  · exact ⟨rfl, rfl, fun _ hne => hset hne, fun _ _ => rfl, fun _ _ => rfl⟩
  · exact ⟨rfl, rfl, fun _ _ => rfl, fun _ _ => rfl, fun _ hne => hset hne⟩
  · exact ⟨rfl, rfl, fun _ _ => rfl, fun _ hne => hset hne, fun _ _ => rfl⟩
  · exact ⟨rfl, rfl, fun _ _ => rfl, fun _ _ => rfl, fun _ _ => rfl⟩

theorem AgreesBut.advances {name? : Option String} {s t u : Session R S} (h : AgreesBut name? s t)
    (k : t.Advances u) : AgreesBut name? s u :=
  ⟨k.settings.trans h.settings, k.pins.trans h.pins, fun other hne => k.values ▸ h.values other hne,
    fun other hne => k.functions ▸ h.functions other hne, fun other hne => k.units ▸ h.units other hne⟩

theorem define_of_isExpression {n : Node} (h : n.IsExpression) (value : Option (Quantity R))
    (s : Session R S) : s.define n value = s := by
  cases h with
  | letBinding => rfl
  | operation hn =>
    cases n with
    | assignment | unitDefinition | functionDefinition => cases hn
    | _ => rfl

/-- What a definition needs is evaluated first. -/
theorem Advances.define {s t : Session R S} (h : s.Advances t) (n : Node)
    (value : Option (Quantity R)) : (s.define n value).Advances (t.define n value) := by
  rw [Session.define.eq_def, Session.define.eq_def]
  split
  · rename_i name _ q
    exact ⟨h.settings, congrArg (·.set name q) h.values, h.pins, h.functions, h.units, h.constants⟩
  · rename_i name _ _ q
    exact ⟨h.settings, h.values, h.pins, h.functions, congrArg (·.set name q) h.units, h.constants⟩
  · rename_i name parameters body
    exact ⟨h.settings, h.values, h.pins, congrArg (·.set name ⟨name, parameters, body⟩) h.functions,
      h.units, h.constants⟩
  · exact h

/-- What the evaluation of a statement leaves of a session, by what the statement comes to. -/
def Leaves (n : Node) (s : Session R S) :
    Except (Fault R) (Option (Quantity R)) × Session R S → Prop
  | (.error _, t) => s.Advances t
  | (.ok value, t) => (s.define n value).Advances t

/-! ## Computations that only advance -/

/-- A computation that only advances a session, whatever it comes to. -/
def Calm {α : Type} (m : Evaluation R S α) : Prop :=
  ∀ s : Session R S, s.HasExpressionBodies → s.Advances (m.run s).2

namespace Calm

variable {α β : Type}

theorem pure (a : α) : Calm (Pure.pure a : Evaluation R S α) :=
  fun s _ => .refl s

theorem throw (f : Fault R) : Calm (MonadExcept.throw f : Evaluation R S α) :=
  fun s _ => .refl s

theorem get : Calm (MonadState.get : Evaluation R S (Session R S)) :=
  fun s _ => .refl s

theorem ofExcept (e : Except (Fault R) α) : Calm (Evaluation.ofExcept e : Evaluation R S α) :=
  fun s _ => .refl s

theorem withUnits (f : Bindings (Quantity R) → Except (Fault R) α) :
    Calm (withUnits f : Evaluation R S α) :=
  fun s _ => .refl s

theorem draw (d : Draw R S α) : Calm (Evaluation.draw d) :=
  fun s _ => .source s _

theorem bind {m : Evaluation R S α} {f : α → Evaluation R S β} (hm : Calm m) (hf : ∀ a, Calm (f a)) :
    Calm (m >>= f) := by
  intro s hs
  have hfirst := hm s hs
  rcases h : m.run s with ⟨e | a, t⟩
  · rw [run_bind_of_error h]
    rwa [h] at hfirst
  · rw [run_bind_of_ok h]
    rw [h] at hfirst
    exact hfirst.trans (hf a t (hfirst.hasExpressionBodies hs))

theorem required {m : Evaluation R S (Option (Quantity R))} (hm : Calm m) (node : Node) :
    Calm (required node m) := by
  refine hm.bind fun value => ?_
  rcases value with _ | q
  · exact .throw _
  · exact .pure q

theorem sampleIn (unit : CompoundUnit R)
    (sampler : Written R → SampleFrame R → Draw R S (Quantity R)) : Calm (sampleIn unit sampler) :=
  get.bind fun _ => .draw _

/-- No step of an operation defines anything. -/
theorem stepRules : StepRules fun _ (m : Frames R → Evaluation R S _) => ∀ F, Calm (m F) where
  pure a _ := pure a
  throw f _ := throw f
  ofExcept e _ := ofExcept e
  withUnits f _ := withUnits f
  sampleIn unit sampler _ := sampleIn unit sampler
  bind hm hk F := (hm F).bind fun a => hk a F

variable [Scalar R] [RandomSource S R]

/-- A constant is drawn at most once. -/
theorem constant (name : String) : Calm (constant? name : Evaluation R S _) := by
  intro s _
  rcases hrun : (constant? name : Evaluation R S _).run s with ⟨e | value, t⟩
  · obtain ⟨-, source, -, -, -, rfl⟩ := run_constant_eq_error hrun
    exact .source s source
  · obtain ⟨found, source, hremembers, rfl⟩ := run_constant_eq_ok hrun
    exact ⟨rfl, rfl, rfl, rfl, rfl, fun other q hq => hremembers.keeps hq⟩

theorem identifier (F : Frames R) (name : String) : Calm (identifier F name : Evaluation R S _) := by
  have hlookup : Calm (lookup? F name : Evaluation R S _) := by
    rw [lookup?]
    split
    · exact .pure _
    · refine get.bind fun s => ?_
      split
      · exact .pure _
      · exact constant name
  refine hlookup.bind fun value => ?_
  split
  · exact .pure _
  · split
    · exact get.bind fun _ => .throw _
    · exact .ofExcept _

theorem callBuiltin (name : String) (arguments : List (Quantity R)) :
    Calm (callBuiltin name arguments : Evaluation R S _) := by
  refine get.bind fun s => ?_
  split
  · exact .throw _
  split
  · exact .throw _
  · exact .draw _

end Calm

/-- A statement that goes on with the value of an expression. -/
theorem leaves_bind {n : Node} {s : Session R S} (hs : s.HasExpressionBodies)
    {m : Evaluation R S (Quantity R)} (hm : Calm m)
    {k : Quantity R → Evaluation R S (Option (Quantity R))}
    (hk : ∀ q t, Leaves n t ((k q).run t)) : Leaves n s ((m >>= k).run s) := by
  have hfirst := hm s hs
  rcases hrun : m.run s with ⟨e | q, t⟩
  · rw [run_bind_of_error hrun]
    rwa [hrun] at hfirst
  · rw [hrun] at hfirst
    rw [run_bind_of_ok hrun]
    have hrest := hk q t
    rcases hlast : (k q).run t with ⟨e | value, u⟩
    · rw [hlast] at hrest
      exact hfirst.trans hrest
    · rw [hlast] at hrest
      exact (hfirst.define n value).trans hrest

/-! ## Expressions -/

variable [Scalar R] [RandomSource S R]

/-- Expressions in bodies of functions only advance a session. -/
def CalmBodies (body : TreeEvaluation R S) : Prop :=
  ∀ F n, n.IsExpression → Calm (body F n)

variable {body : TreeEvaluation R S}

section

variable (hbody : CalmBodies body)
include hbody

/-- A call runs the body of a function of the session, which is an expression. -/
theorem calm_callFunction (F : Frames R) (name : String) (arguments : List (Quantity R)) :
    Calm (callFunction body F name arguments) := by
  intro s hs
  rw [callFunction, run_bind_of_ok (run_get s)]
  rcases hfunction : s.functions.get? name with _ | function
  · exact Calm.callBuiltin name arguments s hs
  · have hcall : Calm (do
        let frame ← Evaluation.ofExcept (S := S) (callFrame function arguments)
        required function.body (body (frame :: F) function.body)) :=
      .bind (.ofExcept _) fun frame => (hbody _ _ (hs name function hfunction)).required _
    exact hcall s hs

/-- All that an expression is put together from is calm. -/
theorem calm_rules : ExpressionRules body fun _ (m : Frames R → Evaluation R S _) => ∀ F, Calm (m F) where
  toStepRules := Calm.stepRules
  opened hm frame F := hm (frame :: F)
  call name arguments F := calm_callFunction hbody F name arguments

theorem calm_evaluateNode {n : Node} (hn : n.IsExpression) (F : Frames R) :
    Calm (evaluateNode body F n) :=
  (calm_rules hbody).evaluateNode hn (fun name _ F => .identifier F name) F

end

/-- **Expressions define nothing**: induction on the number of calls that may still be opened. -/
theorem calm_evaluateWithin (limit : Nat) : CalmBodies (evaluateWithin (R := R) (S := S) limit) := by
  induction limit with
  | zero => exact fun F n _ => .throw _
  | succ limit ih => exact fun F n hn => calm_evaluateNode ih hn F

/-! ## Statements -/

/-- One step for each kind of statement. -/
theorem leaves_statement {n : Node} (hn : n.IsStatement) {s : Session R S}
    (hs : s.HasExpressionBodies) : Leaves n s (outcome n s, next n s) := by
  have hcalm : ∀ {m : Node}, m.IsExpression →
      Calm (evaluateNode (evaluateWithin (R := R) (S := S) callLimit) [] m) :=
    fun hm => calm_evaluateNode (calm_evaluateWithin callLimit) hm []
  show Leaves n s ((evaluateNode (evaluateWithin callLimit) [] n).run s)
  cases hn with
  | expression h =>
    have hadvances := hcalm h s hs
    rcases hrun : (evaluateNode (evaluateWithin callLimit) [] n).run s with ⟨e | value, t⟩
    · rw [hrun] at hadvances
      exact hadvances
    · rw [hrun] at hadvances
      show (s.define n value).Advances t
      rw [define_of_isExpression h]
      exact hadvances
  | assignment h =>
    rw [evaluateNode]
    exact leaves_bind hs ((hcalm h).required _) fun q t => .refl _
  | unitDefinition h =>
    rw [evaluateNode]
    split
    · exact .refl s
    · refine leaves_bind hs ((hcalm h).required _) fun q t => ?_
      -- the definition may still be refused, and then nothing is defined
      rename_i name count _ _
      show Leaves _ t ((some <$> defineUnit name (Scalar.ofDecimal count) q).run t)
      rcases hunit : unitOf name (Scalar.ofDecimal count) q with e | unit
      · have hrun : (defineUnit name (Scalar.ofDecimal count) q).run t = (.error e, t) := by
          rw [defineUnit, hunit]
          rfl
        rw [run_map_of_error hrun]
        exact .refl t
      · have hrun : (defineUnit name (Scalar.ofDecimal count) q).run t =
            (.ok unit, { t with units := t.units.set name unit }) := by
          rw [defineUnit, hunit]
          rfl
        rw [run_map_eq_ok.mpr ⟨unit, hrun, rfl⟩]
        exact .refl _
  | functionDefinition h =>
    rw [evaluateNode]
    exact .refl _

/-- How a statement may leave a session and its stack of scopes. -/
inductive EffectOf (n : Node) (s : Session R S) :
    Except (Fault R) (Option (Quantity R)) × ScopedSession R S → Prop
  /-- nothing has been defined, and the stack is that from before -/
  | failed {f : Fault R} {t : ScopedSession R S} (hscopes : t.scopes = (ScopedSession.ofSession s).scopes)
      (h : s.Advances t.session) : EffectOf n s (.error f, t)
  /-- what the statement defines has been defined, under one name, and one scope is open -/
  | done {value : Option (Quantity R)} {t : ScopedSession R S} (hscopes : t.scopes.length = 1)
      (h : (s.define n value).Advances t.session) (hname : AgreesBut n.definedName? s t.session) :
      EffectOf n s (.ok value, t)

/-- **A statement that fails changes nothing but the random source and the constants.** On a stack of
scopes a statement comes to what it comes to in frames; if that is a fault, the stack and all tables but
that of the constants are those from before, and if it is none, one scope is left, and what the statement
defines is there and nothing else has changed. -/
theorem statement_effect {s : Session R S} (hs : s.HasExpressionBodies) {text : String}
    {statements : List Node} (htext : Node.statementsOfText text = .ok statements) {n : Node}
    (hn : n ∈ statements) :
    let r := (evaluateScopedWithin (callLimit + 1) n).run (.ofSession s)
    r.1 = outcome n s ∧ r.2.session = next n s ∧ EffectOf n s r := by
  have hfollows : (evaluateScopedWithin (callLimit + 1) n).run (.ofSession s) =
      (outcome n s, ScopedSession.ofSession (next n s)) :=
    evaluateScopedWithin_follows (callLimit + 1) n (.ofSession s)
  have hleaves := leaves_statement (Node.isStatement_of_read htext n hn) hs
  rw [hfollows]
  refine ⟨rfl, rfl, ?_⟩
  rcases houtcome : outcome n s with f | value
  · rw [houtcome] at hleaves
    refine .failed ?_ hleaves
    simp only [ScopedSession.scopes, ScopedSession.ofSession, List.nil_append, hleaves.values]
  · rw [houtcome] at hleaves
    exact .done rfl hleaves ((agreesBut_define n value s).advances hleaves)

/-! ## Sessions of programs -/

/-- The sessions that the statements of programs lead to, and what may be set from outside. -/
inductive Programmed : Session R S → Prop
  | start (settings : Settings R) (source : S) : Programmed (.ofSource settings source)
  | statement {s : Session R S} (h : Programmed s) {text : String} {statements : List Node}
      (htext : Node.statementsOfText text = .ok statements) {n : Node} (hn : n ∈ statements) :
      Programmed (next n s)
  | setVariable {s : Session R S} (h : Programmed s) (name : String) (q : Quantity R) :
      Programmed (s.setVariable name q)
  | pinVariable {s : Session R S} (h : Programmed s) (name : String) (q : Quantity R) :
      Programmed (s.pinVariable name q)
  | clearVariables {s : Session R S} (h : Programmed s) : Programmed s.clearVariables
  | reset {s : Session R S} (h : Programmed s) : Programmed s.reset

/-- **The bodies of functions are what programs have written.** -/
theorem Programmed.hasWrittenBodies {s : Session R S} (h : Programmed s) : s.HasWrittenBodies := by
  induction h with
  | start | reset => exact .empty
  | setVariable _ _ _ ih | pinVariable _ _ _ ih | clearVariables _ ih => exact ih
  | @statement s _ text statements htext n hn ih =>
    have hwritten := Node.isWritten_of_read htext n hn
    have hleaves := leaves_statement hwritten.isStatement ih.hasExpressionBodies
    rcases houtcome : outcome n s with f | value
    · rw [houtcome] at hleaves
      exact Advances.hasWrittenBodies hleaves ih
    · rw [houtcome] at hleaves
      refine Advances.hasWrittenBodies hleaves ?_
      cases hstatement : hwritten.isStatement with
      | expression h =>
        rw [define_of_isExpression h]
        exact ih
      | assignment | unitDefinition => cases value <;> exact ih
      | functionDefinition hbody => exact Bindings.All.set ih _ ⟨hbody, hwritten.texts.part (List.mem_singleton_self _)⟩

/-- The functions of programs have expressions for bodies. -/
theorem Programmed.hasExpressionBodies {s : Session R S} (h : Programmed s) :
    s.HasExpressionBodies :=
  h.hasWrittenBodies.hasExpressionBodies

theorem statementsOfText_identityCall : ∃ d, Node.statementsOfText "f(x) = x\ny = f(2)" =
    .ok [.functionDefinition "f" ["x"] (.identifier "x"),
      .assignment "y" (.call "f" [.number d none])] :=
  ⟨.ofNat 2, Node.statementsOfText_of_toOption (by decide +kernel)⟩

/-- An assignment that calls a function, in the session that the definition of the function has left. -/
theorem identity_called : ∃ statements n, Node.statementsOfText "f(x) = x\ny = f(2)" = .ok statements ∧
    n ∈ statements ∧ ∃ s : Session ℝ (ConstantSource ℝ), s.HasExpressionBodies ∧
      (s.functions.get? "f").isSome = true ∧
        EffectOf n s ((evaluateScopedWithin (callLimit + 1) n).run (.ofSession s)) := by
  obtain ⟨d, htext⟩ := statementsOfText_identityCall
  have hs := (Programmed.start fresh.settings fresh.source).statement htext List.mem_cons_self
  have hn := List.mem_cons_of_mem (Node.functionDefinition "f" ["x"] (.identifier "x"))
    (List.mem_singleton_self (Node.assignment "y" (.call "f" [.number d none])))
  refine ⟨_, _, htext, hn, _, hs.hasExpressionBodies, ?_,
    (statement_effect hs.hasExpressionBodies htext hn).2.2⟩
  rw [next, evaluateTree, evaluateWithin, evaluateNode]
  show ((Bindings.empty.set "f" _).get? "f").isSome = true
  rw [Bindings.get?_set, if_pos rfl]
  rfl

end Session

end Ballpark
