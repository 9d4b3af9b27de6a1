import Ballpark.Proofs.StatementEffect

/-!
# Only the names that are read matter

What an expression comes to depends on the stack of scopes by the names alone that it reads, or that the
bodies of functions read: two stacks of any depth in which these names are bound to the same, or not bound
in both, give the same value and leave the same random source and constants, or fail with faults of one
kind (`Session.evaluation_by_names`).

The two evaluations are run side by side (`Rebinding.Matches`), in sessions that differ in their variables
and pins (`Rebinding.Beside`). Where a name is looked up, the walk down the stack ends in the same value, or
at the constants, of which both sessions have the same. A binding or a call opens the same frame on both
stacks, so that they still agree, be it that the frame hides a name or that a body looks at the frames of
its caller. All else is the same computation, blind to the variables.
-/

namespace Ballpark

open Evaluation

variable {R S α β : Type}

/-! ## The walk down the stack -/

namespace Session

variable [Scalar R] [RandomSource S R] {F : Frames R} {s : Session R S} {name : String}

/-- The last scope of a stack holds the variables. -/
theorem run_lookup_of_bound {q : Quantity R} (h : (F ++ [s.values]).findSome? (·.get? name) = some q) :
    (lookup? F name : Evaluation R S _).run s = (.ok (some q), s) := by
  rw [List.findSome?_append] at h
  rcases hF : F.findSome? (·.get? name) with _ | p
  · rw [hF, Option.none_or, List.findSome?_singleton] at h
    rw [lookup?, hF, valueOf?, run_bind_of_ok (run_get s), h]
    rfl
  · rw [hF, Option.some_or] at h
    rw [lookup?, hF, h]
    rfl

theorem run_lookup_of_unbound (h : (F ++ [s.values]).findSome? (·.get? name) = none) :
    (lookup? F name : Evaluation R S _).run s = (constant? name : Evaluation R S _).run s := by
  rw [List.findSome?_append, Option.or_eq_none_iff, List.findSome?_singleton] at h
  rw [lookup?, h.1, valueOf?, run_bind_of_ok (run_get s), h.2]

end Session

/-! ## Side by side -/

/-- Two sessions that differ in their variables: what these are in each, and which names matter, with all
that the bodies of functions read among them. -/
structure Rebinding (R : Type) where
  functions : Bindings FunctionDefinition
  /-- the variables of the one session -/
  values : Bindings (Quantity R)
  /-- the variables of the other -/
  values' : Bindings (Quantity R)
  /-- what is pinned in the other -/
  pins' : Bindings (Quantity R)
  names : Set String
  isExpression : functions.All fun function => function.body.IsExpression
  reads : functions.All fun function => ∀ name, function.body.Reads name → name ∈ names

namespace Rebinding

variable {c : Rebinding R}

/-- The sessions are the same but for their variables and pins. -/
structure Beside (c : Rebinding R) (s s' : Session R S) : Prop where
  functions : s.functions = c.functions
  values : s.values = c.values
  rest : s' = { s with values := c.values', pins := c.pins' }

/-- The names that matter are bound to the same on two stacks of scopes, or on neither of them. -/
def SameNames (c : Rebinding R) (F F' : Frames R) : Prop :=
  ∀ name ∈ c.names,
    (F ++ [c.values]).findSome? (·.get? name) = (F' ++ [c.values']).findSome? (·.get? name)

/-- A frame that is opened on both stacks holds the same in both. -/
theorem SameNames.opened {F F' : Frames R} (h : c.SameNames F F') (frame : Bindings (Quantity R)) :
    c.SameNames (frame :: F) (frame :: F') := by
  intro name hname
  rw [List.cons_append, List.cons_append, List.findSome?_cons, List.findSome?_cons, h name hname]

/-- Two evaluations come to the same, or to faults of one kind, and leave the sessions beside each other. -/
def Matches (c : Rebinding R) (m m' : Evaluation R S α) : Prop :=
  ∀ s s', c.Beside s s' →
    (m.run s).1.mapError Fault.kind = (m'.run s').1.mapError Fault.kind ∧ c.Beside (m.run s).2 (m'.run s').2

namespace Matches

theorem pure (a : α) : c.Matches (Pure.pure a : Evaluation R S α) (Pure.pure a) :=
  fun _ _ h => ⟨rfl, h⟩

/-- Faults of one kind may tell of different names. -/
theorem throw {f f' : Fault R} (h : f.kind = f'.kind) :
    c.Matches (MonadExcept.throw f : Evaluation R S α) (MonadExcept.throw f') :=
  fun _ _ hs => ⟨congrArg Except.error h, hs⟩

theorem ofExcept (e : Except (Fault R) α) :
    c.Matches (Evaluation.ofExcept e : Evaluation R S α) (Evaluation.ofExcept e) :=
  fun _ _ h => ⟨rfl, h⟩

theorem bind {m m' : Evaluation R S α} {k k' : α → Evaluation R S β} (hm : c.Matches m m')
    (hk : ∀ a, c.Matches (k a) (k' a)) : c.Matches (m >>= k) (m' >>= k') := by
  intro s s' hs
  obtain ⟨hresult, hleft⟩ := hm s s' hs
  rcases hrun : m.run s with ⟨f | a, t⟩ <;> rcases hrun' : m'.run s' with ⟨f' | a', t'⟩ <;>
    rw [hrun, hrun'] at hresult hleft
  · rw [run_bind_of_error hrun, run_bind_of_error hrun']
    exact ⟨congrArg Except.error (Except.error.inj hresult), hleft⟩
  · cases hresult
  · cases hresult
  · obtain rfl : a = a' := Except.ok.inj hresult
    rw [run_bind_of_ok hrun, run_bind_of_ok hrun']
    exact hk a t t' hleft

/-- The sessions may be looked into first. -/
theorem get_bind {k k' : Session R S → Evaluation R S α}
    (hk : ∀ s s', c.Beside s s' → c.Matches (k s) (k' s')) : c.Matches (get >>= k) (get >>= k') := by
  intro s s' hs
  rw [run_bind_of_ok (run_get s), run_bind_of_ok (run_get s')]
  exact hk s s' hs s s' hs

theorem draw (d : Draw R S α) : c.Matches (Evaluation.draw d) (Evaluation.draw d) := by
  rintro s _ ⟨hfunctions, hvalues, rfl⟩
  exact ⟨rfl, hfunctions, hvalues, rfl⟩

theorem withUnits (f : Bindings (Quantity R) → Except (Fault R) α) :
    c.Matches (Session.withUnits f : Evaluation R S α) (Session.withUnits f) := by
  refine get_bind fun s s' hs => ?_
  rw [hs.rest]
  exact ofExcept (f s.units)

theorem sampleIn (unit : CompoundUnit R) (sampler : Written R → SampleFrame R → Draw R S (Quantity R)) :
    c.Matches (Session.sampleIn unit sampler) (Session.sampleIn unit sampler) := by
  refine get_bind fun s s' hs => ?_
  rw [hs.rest]
  exact draw _

theorem required {m m' : Evaluation R S (Option (Quantity R))} (hm : c.Matches m m') (n : Node) :
    c.Matches (Session.required n m) (Session.required n m') := by
  refine hm.bind fun value => ?_
  rcases value with _ | q
  · exact throw rfl
  · exact pure q

theorem stepRules : Session.StepRules fun _ (m : Frames R → Evaluation R S _) =>
    ∀ F F', c.SameNames F F' → c.Matches (m F) (m F') where
  pure a _ _ _ := pure a
  throw _ _ _ _ := throw rfl
  ofExcept e _ _ _ := ofExcept e
  withUnits f _ _ _ := withUnits f
  sampleIn unit sampler _ _ _ := sampleIn unit sampler
  bind hm hk F F' hF := (hm F F' hF).bind fun a => hk a F F' hF

variable [Scalar R] [RandomSource S R]

/-- Both sessions have drawn the same constants. -/
theorem constant (name : String) :
    c.Matches (Session.constant? name : Evaluation R S _) (Session.constant? name) := by
  refine get_bind fun s s' hs => ?_
  rw [hs.rest]
  refine (draw _).bind fun found => ?_
  rintro t _ ⟨hfunctions, hvalues, rfl⟩
  exact ⟨rfl, hfunctions, hvalues, rfl⟩

/-- A name that matters is found on both stacks, or is a constant in both sessions. -/
theorem lookup {F F' : Frames R} (hF : c.SameNames F F') {name : String} (hname : name ∈ c.names) :
    c.Matches (Session.lookup? F name : Evaluation R S _) (Session.lookup? F' name) := by
  intro s s' hs
  have hvalues' : s'.values = c.values' := by rw [hs.rest]
  have hfound := hF name hname
  rw [← hs.values, ← hvalues'] at hfound
  rcases h : (F ++ [s.values]).findSome? (·.get? name) with _ | q
  · rw [Session.run_lookup_of_unbound h, Session.run_lookup_of_unbound (hfound.symm.trans h)]
    exact constant name s s' hs
  · rw [Session.run_lookup_of_bound h, Session.run_lookup_of_bound (hfound.symm.trans h)]
    exact ⟨rfl, hs⟩

/-- A name that is bound nowhere is read as a unit; what is suggested for one that is none may differ. -/
theorem identifier {F F' : Frames R} (hF : c.SameNames F F') {name : String} (hname : name ∈ c.names) :
    c.Matches (Session.identifier F name : Evaluation R S _) (Session.identifier F' name) := by
  refine (lookup hF hname).bind fun value => ?_
  split
  · exact pure _
  · split
    · exact get_bind fun _ _ _ => throw rfl
    · exact ofExcept _

theorem callBuiltin (name : String) (arguments : List (Quantity R)) :
    c.Matches (Session.callBuiltin name arguments : Evaluation R S _)
      (Session.callBuiltin name arguments) := by
  refine get_bind fun s s' hs => ?_
  have hsettings : s'.settings = s.settings := by rw [hs.rest]
  rw [Session.frame, Session.frame, hsettings]
  split
  · exact throw rfl
  · split
    · exact throw rfl
    · exact draw _

end Matches

/-! ## Expressions -/

variable [Scalar R] [RandomSource S R]

/-- Bodies of functions match in scopes where the names are the same that they read. -/
def BodiesMatch (c : Rebinding R) (body : TreeEvaluation R S) : Prop :=
  ∀ {n : Node}, n.IsExpression → (∀ name, n.Reads name → name ∈ c.names) →
    ∀ F F', c.SameNames F F' → c.Matches (body F n) (body F' n)

variable {body : TreeEvaluation R S}

/-- Both sessions call one function, and what its body reads are names that matter. -/
theorem matches_callFunction (hbody : c.BodiesMatch body) {F F' : Frames R} (hF : c.SameNames F F')
    (name : String) (arguments : List (Quantity R)) :
    c.Matches (Session.callFunction body F name arguments) (Session.callFunction body F' name arguments) := by
  refine Matches.get_bind fun s s' hs => ?_
  have hfunctions' : s'.functions = c.functions := by rw [hs.rest, hs.functions]
  rw [hs.functions, hfunctions']
  rcases hfunction : c.functions.get? name with _ | function
  · exact .callBuiltin name arguments
  · refine (Matches.ofExcept _).bind fun frame => Matches.required ?_ _
    exact hbody (c.isExpression name function hfunction) (c.reads name function hfunction) _ _
      (hF.opened frame)

theorem expressionRules (hbody : c.BodiesMatch body) :
    Session.ExpressionRules body fun _ (m : Frames R → Evaluation R S _) =>
      ∀ F F', c.SameNames F F' → c.Matches (m F) (m F') where
  toStepRules := Matches.stepRules
  opened hm frame _ _ hF := hm _ _ (hF.opened frame)
  call name arguments _ _ hF := matches_callFunction hbody hF name arguments

/-- Induction on the number of calls that may still be opened. -/
theorem matches_evaluateWithin (limit : Nat) : c.BodiesMatch (Session.evaluateWithin (R := R) (S := S) limit) := by
  induction limit with
  | zero => exact fun _ _ _ _ _ => Matches.throw rfl
  | succ limit ih =>
    intro n hn hreads
    exact (expressionRules ih).evaluateNode hn fun name hname _ _ hF => .identifier hF (hreads name hname)

end Rebinding

namespace Session

variable [Scalar R] [RandomSource S R]

/-- **Only the names that are read matter.** Two sessions have the same settings, random source, functions,
units and constants, and an expression is evaluated on two stacks of scopes, whose last scopes are the
variables. If every name that the expression or the body of a function reads is bound to the same on both
stacks, or on neither, then the expression comes to the same, or to faults of one kind, and the sessions
differ afterwards in what they differed in before. The bodies are expressions, as those of all functions
are that a program defines (`Programmed.hasExpressionBodies`). -/
theorem evaluation_by_names (limit : Nat) {n : Node} (hn : n.IsExpression) {s s' : Session R S}
    {F F' : Frames R} (hbodies : s.HasExpressionBodies)
    (hrest : s' = { s with values := s'.values, pins := s'.pins })
    (hnames : ∀ name, (n.Reads name ∨ ∃ called function, s.functions.get? called = some function ∧
        function.body.Reads name) →
      (F ++ [s.values]).findSome? (·.get? name) = (F' ++ [s'.values]).findSome? (·.get? name)) :
    let r := (evaluateWithin limit F n).run s
    let r' := (evaluateWithin limit F' n).run s'
    r.1.mapError Fault.kind = r'.1.mapError Fault.kind ∧
      r'.2 = { r.2 with values := s'.values, pins := s'.pins } := by
  let c : Rebinding R :=
    { functions := s.functions
      values := s.values
      values' := s'.values
      pins' := s'.pins
      names := fun name => n.Reads name ∨ ∃ called function, s.functions.get? called = some function ∧
        function.body.Reads name
      isExpression := hbodies
      reads := fun called function hfunction name hname => .inr ⟨called, function, hfunction, hname⟩ }
  have hmatches : c.Matches (evaluateWithin (S := S) limit F n) (evaluateWithin limit F' n) :=
    c.matches_evaluateWithin limit hn (fun _ hname => .inl hname) F F' hnames
  obtain ⟨hresult, hleft⟩ := hmatches s s' ⟨rfl, rfl, hrest⟩
  exact ⟨hresult, hleft.rest⟩

/-! ## A name that is bound further in -/

/-- A session with a function that is the variable `x`, wherever it is called. -/
noncomputable def readingX (x : ℝ) : Session ℝ (ConstantSource ℝ) :=
  { fresh with
    values := .ofList [("x", .plain x)]
    functions := .ofList [("f", ⟨"f", [], .identifier "x"⟩)] }

theorem functions_readingX (x : ℝ) :
    (readingX x).functions.All fun function => function.body = .identifier "x" :=
  .ofList fun e he => by rw [List.mem_singleton.mp he]

/-- `let y = x in f()`. -/
def bindAndCall : Node :=
  .letBinding "y" (.identifier "x") (.call "f" [])

theorem isExpression_name (name : String) : (Node.identifier name).IsExpression :=
  .operation rfl fun _ hm => absurd hm List.not_mem_nil

theorem isExpression_bindAndCall : bindAndCall.IsExpression :=
  .letBinding (isExpression_name "x") (.operation rfl fun _ hm => absurd hm List.not_mem_nil)

theorem eq_of_reads_name {name other : String} (h : (Node.identifier other).Reads name) : name = other := by
  cases h with
  | identifier => rfl
  | part hm => exact absurd hm List.not_mem_nil

theorem eq_of_reads_bindAndCall {name : String} (h : bindAndCall.Reads name) : name = "x" := by
  rcases h with _ | ⟨hm, h⟩
  rcases List.mem_pair.mp hm with rfl | rfl
  · exact eq_of_reads_name h
  · rcases h with _ | ⟨hm, -⟩
    exact absurd hm List.not_mem_nil

/-- The one session finds `x` among its variables, the other in a frame that hides its own `x`. -/
theorem bound_further_in :
    let r := (evaluateWithin callLimit [] bindAndCall).run (readingX 1)
    let r' := (evaluateWithin callLimit [.ofList [("x", .plain 1)]] bindAndCall).run (readingX 2)
    r.1.mapError Fault.kind = r'.1.mapError Fault.kind ∧
      r'.2 = { r.2 with values := (readingX 2).values, pins := (readingX 2).pins } := by
  have hbodies : (readingX 1).HasExpressionBodies := by
    intro called function hfunction
    rw [functions_readingX 1 called function hfunction]
    exact isExpression_name "x"
  refine evaluation_by_names callLimit isExpression_bindAndCall hbodies rfl ?_
  rintro name (hname | ⟨called, function, hfunction, hname⟩)
  · rw [eq_of_reads_bindAndCall hname]
    rfl
  · rw [functions_readingX 1 called function hfunction] at hname
    rw [eq_of_reads_name hname]
    rfl

end Session

end Ballpark
