import Ballpark.Proofs.ConstantMemory
import Ballpark.Proofs.EvaluationPoint
import Ballpark.Proofs.ExpressionRules

/-!
# The look-ups of an evaluation

An evaluation looks names up, each in the frames of the place where it stands and in the session that has
come about by then. `Session.lookUps` lists these look-ups in the order in which they are made, through the
bodies of functions and up to the fault if there is one. It is told by two things that nothing is missing:
what an evaluation comes through (`Point.Reaches`) is listed, and one look-up leads to the next by steps that
touch neither the settings nor the constants (`Session.LeadsTo`). So what is to be known of the constants of
a session is seen from the list.
-/

namespace Ballpark

open Session Evaluation

variable {R S α β : Type}

/-- A look-up of a name: in which frames, and in which session. -/
structure LookUp (R S : Type) where
  frames : Frames R
  name : String
  session : Session R S

namespace LookUp

variable [Scalar R] [RandomSource S R]

/-- What the look-up comes to. -/
def run (ℓ : LookUp R S) : Except (Fault R) (Option (Quantity R)) × Session R S :=
  (lookup? ℓ.frames ℓ.name : Evaluation R S _).run ℓ.session

/-- The value that is found, if there is one. -/
def result (ℓ : LookUp R S) : Except (Fault R) (Option (Quantity R)) :=
  ℓ.run.1

/-- The session that the look-up leaves. -/
def after (ℓ : LookUp R S) : Session R S :=
  ℓ.run.2

end LookUp

/-- The look-ups that a computation makes, by the session that it starts in. -/
abbrev Trace (R S : Type) := Session R S → List (LookUp R S)

namespace Trace

/-- No look-ups. -/
def none : Trace R S :=
  fun _ => []

/-- The look-ups of a computation, and of what follows if it succeeds. -/
def andThen (first : Trace R S) (m : Evaluation R S α) (next : α → Trace R S) : Trace R S := fun s =>
  first s ++ match m.run s with
    | (.ok a, t) => next a t
    | (.error _, _) => []

variable {first : Trace R S} {m : Evaluation R S α} {next : α → Trace R S} {s t : Session R S}

theorem andThen_of_ok {a : α} (h : m.run s = (.ok a, t)) :
    (first.andThen m next) s = first s ++ next a t := by
  rw [andThen, h]

theorem andThen_of_error {f : Fault R} (h : m.run s = (.error f, t)) :
    (first.andThen m next) s = first s := by
  rw [andThen, h, List.append_nil]

theorem andThen_none (first : Trace R S) (m : Evaluation R S α) :
    (first.andThen m fun _ => none) = first := by
  funext s
  rcases h : m.run s with ⟨f | a, t⟩
  · exact andThen_of_error h
  · exact (andThen_of_ok h).trans (List.append_nil _)

theorem andThen_assoc (first : Trace R S) (m : Evaluation R S α) (next : α → Trace R S)
    (k : α → Evaluation R S β) (last : β → Trace R S) :
    (first.andThen m next).andThen (m >>= k) last =
      first.andThen m fun a => (next a).andThen (k a) last := by
  funext s
  rcases h : m.run s with ⟨f | a, t⟩
  · rw [andThen_of_error (run_bind_of_error h), andThen_of_error h, andThen_of_error h]
  · rw [andThen_of_ok h, andThen, andThen_of_ok h, run_bind_of_ok h, List.append_assoc]
    rfl

/-- Whether what is found is made into something else is no matter. -/
theorem andThen_pure (first : Trace R S) (m : Evaluation R S α) (g : α → β) (last : Trace R S) :
    (first.andThen (m >>= fun a => pure (g a)) fun _ => last) = first.andThen m fun _ => last := by
  funext s
  rcases h : m.run s with ⟨f | a, t⟩
  · rw [andThen_of_error h, andThen_of_error (run_bind_of_error h)]
  · have hrun : (m >>= fun a => pure (g a)).run s = (.ok (g a), t) := run_bind_of_ok h
    rw [andThen_of_ok h, andThen_of_ok hrun]

theorem subset_andThen_of_ok {a : α} (h : m.run s = (.ok a, t)) : next a t ⊆ (first.andThen m next) s := by
  rw [andThen_of_ok h]
  exact List.subset_append_right _ _

theorem subset_andThen : first s ⊆ (first.andThen m next) s :=
  List.subset_append_left _ _

end Trace

namespace Session

variable [Scalar R] [RandomSource S R]

/-! ## The look-ups of a tree -/

/-- The look-ups of a tree inside frames. -/
abbrev TreeTrace (R S : Type) := Frames R → Node → Trace R S

/-- The look-ups of a call, once the arguments have their values: those of the body, if the program has
defined the function. -/
def lookUpsOfCall (seen : TreeTrace R S) (frames : Frames R) (name : String)
    (arguments : List (Quantity R)) : Trace R S := fun s =>
  match s.functions.get? name with
  | some function =>
    match callFrame function arguments with
    | .ok frame => seen (frame :: frames) function.body s
    | .error _ => []
  | none => []

mutual

/-- The look-ups of a node, given how bodies of functions are evaluated and the look-ups of these. -/
def lookUps (body : TreeEvaluation R S) (seen : TreeTrace R S) (frames : Frames R) : Node → Trace R S
  | .identifier name => fun s => [⟨frames, name, s⟩]
  | .number .. | .sigFig .. | .unit _ | .percentTwiddle _ | .decibelTwiddle _ | .functionDefinition ..
  | .foreign _ => .none
  | .unary _ operand | .conversion operand _ | .assignment _ operand => lookUps body seen frames operand
  | .binary _ left right | .range left right _ | .uniformRange left right _ | .normalRange left right _
  | .betaOf left right | .betaAgainst left right =>
    (lookUps body seen frames left).andThen (required left (evaluateNode body frames left)) fun _ =>
      lookUps body seen frames right
  | .weightedSet values weights _ =>
    (lookUpsOfAll body seen frames values).andThen (evaluateAll body frames values) fun _ =>
      lookUpsOfAll body seen frames weights
  | .call name arguments =>
    (lookUpsOfAll body seen frames arguments).andThen (evaluateAll body frames arguments) fun values =>
      lookUpsOfCall seen frames name values
  | .letBinding name bound inner =>
    (lookUps body seen frames bound).andThen (required bound (evaluateNode body frames bound)) fun q =>
      lookUps body seen (.ofList [(name, q)] :: frames) inner
  | .ifExpression condition yes no =>
    (lookUps body seen frames condition).andThen
      (required condition (evaluateNode body frames condition)) fun c =>
        match c.value with
        | .scalar x => if isTrue x then lookUps body seen frames yes else lookUps body seen frames no
        | .sample _ =>
          (lookUps body seen frames yes).andThen (required yes (evaluateNode body frames yes)) fun _ =>
            lookUps body seen frames no
  | .unitDefinition _ count definition =>
    if Scalar.isZero (Scalar.ofDecimal count : R) then .none else lookUps body seen frames definition
  | .program statements => lookUpsOfLast body seen frames statements

/-- The look-ups of nodes, each of which must have a value. -/
def lookUpsOfAll (body : TreeEvaluation R S) (seen : TreeTrace R S) (frames : Frames R) :
    List Node → Trace R S
  | [] => .none
  | node :: rest =>
    (lookUps body seen frames node).andThen (required node (evaluateNode body frames node)) fun _ =>
      lookUpsOfAll body seen frames rest

/-- The look-ups of nodes that are evaluated in order. -/
def lookUpsOfLast (body : TreeEvaluation R S) (seen : TreeTrace R S) (frames : Frames R) :
    List Node → Trace R S
  | [] => .none
  | node :: rest =>
    (lookUps body seen frames node).andThen (evaluateNode body frames node) fun _ =>
      lookUpsOfLast body seen frames rest

end

/-- The look-ups of a tree with fewer than `limit` calls inside one another. -/
def lookUpsWithin : Nat → TreeTrace R S
  | 0, _, _ => .none
  | limit + 1, frames, node => lookUps (evaluateWithin limit) (lookUpsWithin limit) frames node

variable {body : TreeEvaluation R S} {seen : TreeTrace R S} {F : Frames R}

theorem lookUpsOfAll_append (before after : List Node) :
    lookUpsOfAll body seen F (before ++ after) =
      (lookUpsOfAll body seen F before).andThen (evaluateAll body F before) fun _ =>
        lookUpsOfAll body seen F after := by
  induction before with
  | nil =>
    funext s
    rfl
  | cons node rest ih =>
    rw [List.cons_append, lookUpsOfAll, lookUpsOfAll, evaluateAll, Trace.andThen_assoc, ih]
    congr 1
    funext q
    exact (Trace.andThen_pure _ _ (q :: ·) _).symm

theorem lookUpsOfLast_append (before after : List Node) (value : Option (Quantity R)) :
    lookUpsOfLast body seen F (before ++ after) =
      (lookUpsOfLast body seen F before).andThen (evaluateLast body F value before) fun _ =>
        lookUpsOfLast body seen F after := by
  induction before generalizing value with
  | nil =>
    funext s
    rfl
  | cons node rest ih =>
    rw [List.cons_append, lookUpsOfLast, lookUpsOfLast, evaluateLast, Trace.andThen_assoc]
    congr 1
    funext next
    exact ih next

/-- The look-ups of an operation after those of its operands: the name itself, or those of a call. -/
def lookUpsOfStep (seen : TreeTrace R S) (frames : Frames R) (n : Node) (values : List (Quantity R)) :
    Trace R S :=
  match n with
  | .identifier name => fun s => [⟨frames, name, s⟩]
  | .call name _ => lookUpsOfCall seen frames name values
  | _ => .none

/-- **An operation looks up what its operands do**, and then what its step does. -/
theorem lookUps_operation {n : Node} (hn : n.isStrict = true) :
    lookUps body seen F n =
      (lookUpsOfAll body seen F n.operands).andThen (evaluateAll body F n.operands)
        (lookUpsOfStep seen F n) := by
  cases n with
  | ifExpression | letBinding | assignment | unitDefinition | functionDefinition | program | foreign =>
    cases hn
  | identifier | number | sigFig | unit | percentTwiddle | decibelTwiddle =>
    funext s
    rw [lookUps]
    rfl
  | call name arguments =>
    rw [lookUps]
    rfl
  | unary | conversion | binary | range | uniformRange | normalRange | betaOf | betaAgainst =>
    show _ = Trace.andThen _ _ fun _ => .none
    simp only [lookUps, Node.operands, lookUpsOfAll, Trace.andThen_none]
  | weightedSet values weights unit =>
    show _ = Trace.andThen _ _ fun _ => .none
    simp only [lookUps, Node.operands, lookUpsOfAll_append, Trace.andThen_none]

/-! ## Nothing is missing -/

end Session

namespace Point

variable [Scalar R] [RandomSource S R]

/-- The look-ups of the evaluation from a point. -/
def lookUps (p : Point R S) : List (LookUp R S) :=
  Session.lookUps (evaluateWithin p.limit) (lookUpsWithin p.limit) p.frames p.node p.session

theorem lookUps_mk (limit : Nat) (F : Frames R) (n : Node) (s : Session R S) :
    lookUps ⟨limit, F, n, s⟩ = Session.lookUps (evaluateWithin limit) (lookUpsWithin limit) F n s := rfl

/-- What is entered looks up nothing that is not looked up by what enters it. -/
theorem Enters.lookUps_subset {p q : Point R S} (h : Enters p q) : q.lookUps ⊆ p.lookUps := by
  cases h with
  -- the look-ups of the operands in front of it come first, then its own
  | operand hn hm hbefore =>
    rw [lookUps_mk, lookUps_mk, lookUps_operation hn, hm, lookUpsOfAll_append, lookUpsOfAll]
    refine List.Subset.trans ?_ Trace.subset_andThen
    refine List.Subset.trans ?_ (Trace.subset_andThen_of_ok hbefore)
    exact Trace.subset_andThen
  -- those of the arguments come first, and the call looks up what its body does
  | body harguments hfunction hframe =>
    rw [lookUps_mk, lookUps_mk, Session.lookUps]
    refine List.Subset.trans ?_ (Trace.subset_andThen_of_ok harguments)
    simp only [lookUpsOfCall, hfunction, hframe]
    exact List.Subset.refl _
  | bound | condition =>
    rw [lookUps_mk, lookUps_mk, Session.lookUps]
    exact Trace.subset_andThen
  | inner hbound =>
    rw [lookUps_mk, lookUps_mk, Session.lookUps]
    refine List.Subset.trans ?_ (Trace.subset_andThen_of_ok (run_required_of_ok hbound))
    exact List.Subset.refl _
  -- of both branches of several particles this one comes first
  | @yes _ _ _ _ _ _ _ c hcondition hopen =>
    rw [lookUps_mk, lookUps_mk, Session.lookUps]
    refine List.Subset.trans ?_ (Trace.subset_andThen_of_ok (run_required_of_ok hcondition))
    rcases hc : c.value with x | particles
    · simp only [hopen x hc, if_true]
      exact List.Subset.refl _
    · exact Trace.subset_andThen
  | no hcondition hx hfails =>
    rw [lookUps_mk, lookUps_mk, Session.lookUps]
    refine List.Subset.trans ?_ (Trace.subset_andThen_of_ok (run_required_of_ok hcondition))
    simp only [hx, hfails, Bool.false_eq_true, if_false]
    exact List.Subset.refl _
  | other hcondition hx hyes =>
    rw [lookUps_mk, lookUps_mk, Session.lookUps]
    refine List.Subset.trans ?_ (Trace.subset_andThen_of_ok (run_required_of_ok hcondition))
    simp only [hx]
    refine List.Subset.trans ?_ (Trace.subset_andThen_of_ok (run_required_of_ok hyes))
    exact List.Subset.refl _
  | assigned =>
    rw [lookUps_mk, lookUps_mk, Session.lookUps]
    exact List.Subset.refl _
  | defined hcount =>
    rw [lookUps_mk, lookUps_mk, Session.lookUps]
    simp only [hcount, Bool.false_eq_true, if_false]
    exact List.Subset.refl _
  -- the statements in front of it look up what they do, and end well
  | statement hbefore =>
    rw [lookUps_mk, lookUps_mk, Session.lookUps, lookUpsOfLast_append _ _ none, lookUpsOfLast]
    refine List.Subset.trans ?_ (Trace.subset_andThen_of_ok hbefore)
    exact Trace.subset_andThen

/-- **Every name that an evaluation comes to is looked up in its list**: with the frames and in the session
of the place where it stands. -/
theorem Reaches.mem_lookUps {p : Point R S} {limit : Nat} {F : Frames R} {name : String}
    {s : Session R S} (h : Reaches p ⟨limit, F, .identifier name, s⟩) : ⟨F, name, s⟩ ∈ p.lookUps := by
  have hname : ⟨F, name, s⟩ ∈ lookUps ⟨limit, F, .identifier name, s⟩ := by
    rw [lookUps_mk, Session.lookUps]
    exact List.mem_singleton_self _
  induction h using Relation.ReflTransGen.head_induction_on with
  | refl => exact hname
  | head hstep _ ih => exact hstep.lookUps_subset ih

end Point

/-! ## One look-up leads to the next -/

namespace Session

/-- The settings are the same, and the constants that have been drawn. -/
structure SameConstants (s t : Session R S) : Prop where
  settings : t.settings = s.settings
  constants : t.constants = s.constants

namespace SameConstants

theorem refl (s : Session R S) : s.SameConstants s :=
  ⟨rfl, rfl⟩

theorem trans {s t u : Session R S} (h : s.SameConstants t) (k : t.SameConstants u) : s.SameConstants u :=
  ⟨k.settings.trans h.settings, k.constants.trans h.constants⟩

end SameConstants

variable [Scalar R] [RandomSource S R]

/-- From one session to another by look-ups, with steps between them that touch neither the settings nor
the constants. -/
inductive LeadsTo : Session R S → List (LookUp R S) → Session R S → Prop
  | stays {s t : Session R S} (h : s.SameConstants t) : LeadsTo s [] t
  | looks {s t : Session R S} {ℓ : LookUp R S} {rest : List (LookUp R S)} (h : s.SameConstants ℓ.session)
      (hrest : LeadsTo ℓ.after rest t) : LeadsTo s (ℓ :: rest) t

theorem LeadsTo.append {s t u : Session R S} {before after : List (LookUp R S)} (h : LeadsTo s before t)
    (k : LeadsTo t after u) : LeadsTo s (before ++ after) u := by
  induction h with
  | stays h =>
    cases k with
    | stays h' => exact .stays (h.trans h')
    | looks h' hrest => exact .looks (h.trans h') hrest
  | looks h _ ih => exact .looks h (ih k)

/-- The look-ups of a computation are those of a trace. -/
def Traced (trace : Trace R S) (m : Evaluation R S α) : Prop :=
  ∀ s, LeadsTo s (trace s) (m.run s).2

/-- A computation that looks nothing up and touches no constant. -/
abbrev Quiet (m : Evaluation R S α) : Prop :=
  Traced .none m

namespace Traced

variable {first : Trace R S} {m : Evaluation R S α}

theorem bind {next : α → Trace R S} {k : α → Evaluation R S β} (hm : Traced first m)
    (hk : ∀ a, Traced (next a) (k a)) : Traced (first.andThen m next) (m >>= k) := by
  intro s
  have hfirst := hm s
  rcases hrun : m.run s with ⟨f | a, t⟩
  · rw [Trace.andThen_of_error hrun, run_bind_of_error hrun]
    rwa [hrun] at hfirst
  · rw [Trace.andThen_of_ok hrun, run_bind_of_ok hrun]
    rw [hrun] at hfirst
    exact hfirst.append (hk a t)

theorem bind_quiet {k : α → Evaluation R S β} (hm : Traced first m) (hk : ∀ a, Quiet (k a)) :
    Traced first (m >>= k) := by
  simpa only [Trace.andThen_none] using hm.bind hk

theorem some (hm : Traced first m) : Traced first (Option.some <$> m) := by
  rw [map_eq_pure_bind]
  exact hm.bind_quiet fun a s => .stays (.refl s)

theorem required {m : Evaluation R S (Option (Quantity R))} (hm : Traced first m) (n : Node) :
    Traced first (required n m) := by
  refine hm.bind_quiet fun value s => ?_
  rcases value with _ | q <;> exact .stays (.refl s)

end Traced

/-- No step of an operation looks anything up but a name. -/
theorem quiet_rules : StepRules fun _ (m : Frames R → Evaluation R S _) => ∀ F, Quiet (m F) where
  pure _ _ s := .stays (.refl s)
  throw _ _ s := .stays (.refl s)
  ofExcept _ _ s := .stays (.refl s)
  withUnits _ _ s := .stays (.refl s)
  sampleIn _ _ _ _ := .stays ⟨rfl, rfl⟩
  bind hm hk F := (hm F).bind_quiet fun a => hk a F

theorem quiet_callBuiltin (name : String) (arguments : List (Quantity R)) :
    Quiet (callBuiltin name arguments : Evaluation R S _) := by
  intro s
  rw [callBuiltin, run_bind_of_ok (run_get s)]
  split
  · exact .stays (.refl s)
  split
  · exact .stays (.refl s)
  · exact .stays ⟨rfl, rfl⟩

theorem traced_identifier (F : Frames R) (name : String) :
    Traced (fun s => [⟨F, name, s⟩]) (identifier F name : Evaluation R S _) := by
  have hlookup : Traced (fun s => [⟨F, name, s⟩]) (lookup? F name : Evaluation R S _) :=
    fun s => .looks (.refl s) (.stays (.refl _))
  refine hlookup.bind_quiet fun value s => ?_
  split
  · exact .stays (.refl s)
  · split <;> exact .stays (.refl s)

variable {body : TreeEvaluation R S} {seen : TreeTrace R S}

section

variable {F : Frames R} {nodes : List Node}

theorem traced_evaluateAll (h : ∀ n ∈ nodes, Traced (lookUps body seen F n) (evaluateNode body F n)) :
    Traced (lookUpsOfAll body seen F nodes) (evaluateAll body F nodes) := by
  induction nodes with
  | nil => exact fun s => .stays (.refl s)
  | cons n rest ih =>
    obtain ⟨hn, hrest⟩ := List.forall_mem_cons.mp h
    rw [lookUpsOfAll, evaluateAll]
    refine (hn.required n).bind fun q => ?_
    exact (ih hrest).bind_quiet fun qs s => .stays (.refl s)

theorem traced_evaluateLast (h : ∀ n ∈ nodes, Traced (lookUps body seen F n) (evaluateNode body F n))
    (value : Option (Quantity R)) :
    Traced (lookUpsOfLast body seen F nodes) (evaluateLast body F value nodes) := by
  induction nodes generalizing value with
  | nil => exact fun s => .stays (.refl s)
  | cons n rest ih =>
    obtain ⟨hn, hrest⟩ := List.forall_mem_cons.mp h
    rw [lookUpsOfLast, evaluateLast]
    exact hn.bind fun next => ih hrest next

end

section

variable (hbody : ∀ F n, Traced (seen F n) (body F n))
include hbody

theorem traced_callFunction (F : Frames R) (name : String) (arguments : List (Quantity R)) :
    Traced (lookUpsOfCall seen F name arguments) (callFunction body F name arguments) := by
  intro s
  rw [callFunction, run_bind_of_ok (run_get s), lookUpsOfCall]
  rcases s.functions.get? name with _ | function
  · exact quiet_callBuiltin name arguments s
  · dsimp only
    rcases callFrame function arguments with f | frame
    · exact .stays (.refl s)
    · exact (hbody (frame :: F) function.body).required function.body s

/-- The step of an operation, one case for each of those that look something up. -/
theorem traced_perform (F : Frames R) (n : Node) (values : List (Quantity R)) :
    Traced (lookUpsOfStep seen F n values) (perform body F n values) := by
  cases n with
  | identifier name => exact (traced_identifier F name).some
  | call name arguments => exact (traced_callFunction hbody F name values).some
  | _ =>
    rw [perform_of_not_call _ _ rfl]
    exact quiet_rules.step (fun name heq => by cases heq) values F

/-- **Look-ups are what an evaluation touches the constants by**: induction on the node. -/
theorem traced_evaluateNode (n : Node) (F : Frames R) :
    Traced (lookUps body seen F n) (evaluateNode body F n) := by
  induction n using Node.parts_induction generalizing F with
  | step n ih =>
    -- an operation looks up what its operands do, and then what it does by itself
    by_cases hn : n.isStrict = true
    · rw [lookUps_operation hn, evaluateNode_operation _ _ hn]
      exact (traced_evaluateAll fun m hm => ih m (n.operands_subset_parts hm) F).bind
        (traced_perform hbody F n)
    cases n with
    | ifExpression condition yes no =>
      have hyes := (ih yes (by simp [Node.parts, Node.operands]) F).required yes
      have hno := (ih no (by simp [Node.parts, Node.operands]) F).required no
      rw [lookUps, evaluateNode]
      refine ((ih condition (by simp [Node.parts, Node.operands]) F).required condition).bind fun c => ?_
      rcases c.value with x | particles
      · by_cases hx : isTrue x = true
        · simpa only [if_pos hx] using hyes.some
        · simpa only [if_neg hx] using hno.some
      · -- a choice between particles looks nothing up
        exact hyes.bind fun x => hno.bind_quiet fun y =>
          quiet_rules.some (quiet_rules.ofExcept (choose particles x y)) F
    | letBinding name bound inner =>
      rw [lookUps, evaluateNode]
      refine ((ih bound (by simp [Node.parts]) F).required bound).bind fun q => ?_
      exact ((ih inner (by simp [Node.parts]) _).required inner).some
    | assignment name value =>
      rw [lookUps, evaluateNode]
      exact ((ih value (by simp [Node.parts]) F).required value).bind_quiet fun q s => .stays ⟨rfl, rfl⟩
    | unitDefinition name count definition =>
      rw [lookUps, evaluateNode]
      split
      · exact fun s => .stays (.refl s)
      · refine ((ih definition (by simp [Node.parts]) F).required definition).bind_quiet fun q => ?_
        have hunit : Quiet (Evaluation.ofExcept (S := S) (unitOf name (Scalar.ofDecimal count) q)) :=
          fun s => .stays (.refl s)
        exact (hunit.bind_quiet fun unit s => .stays ⟨rfl, rfl⟩).some
    | functionDefinition name parameters inner => exact fun s => .stays ⟨rfl, rfl⟩
    | program statements =>
      rw [lookUps, evaluateNode]
      exact traced_evaluateLast (fun m hm => ih m hm F) none
    | foreign kind => exact fun s => .stays (.refl s)
    | _ => exact absurd rfl hn

end

/-- The look-ups of a tree, through any number of calls. -/
theorem traced_evaluateWithin (limit : Nat) (F : Frames R) (n : Node) :
    Traced (lookUpsWithin limit F n) (evaluateWithin (R := R) (S := S) limit F n) := by
  induction limit generalizing F n with
  | zero => exact fun s => .stays (.refl s)
  | succ limit ih => exact traced_evaluateNode ih n F

end Session

end Ballpark
