import Ballpark.Proofs.Operation
import Ballpark.Proofs.Preservation
import Mathlib.Logic.Relation

/-!
# Points of an evaluation

The evaluation of a tree enters the evaluations of other trees: of its operands, of the inner expression
of a binding, of the body of a function that it calls, each in frames of its own and on the session that
what came before has left. Such a place is a `Point`, and `Point.Enters` says which points are entered
from which. So there is a place for what holds in the middle of an evaluation: a contract holds at every
point that is reached (`Contract.Holds.reaches`), and a fault at one of them is the fault of the whole
(`Point.Reaches.run_eq_error`), for evaluation handles none.
-/

namespace Ballpark

open Session Evaluation

/-- A place in an evaluation: a tree that is about to be evaluated, and in what. -/
structure Point (R S : Type) where
  /-- how many calls may still be opened -/
  limit : Nat
  frames : Frames R
  node : Node
  session : Session R S

namespace Point

variable {R S : Type} [Scalar R] [RandomSource S R]

/-- The point at which a tree is evaluated on its own. -/
def start (node : Node) (session : Session R S) : Point R S :=
  ⟨callLimit, [], node, session⟩

/-- What the evaluation from a point comes to. -/
def run (p : Point R S) : Except (Fault R) (Option (Quantity R)) × Session R S :=
  (evaluateNode (evaluateWithin p.limit) p.frames p.node).run p.session

theorem run_start (node : Node) (s : Session R S) : (start node s).run = (outcome node s, next node s) :=
  rfl

/-- The evaluations that an evaluation enters. -/
inductive Enters : Point R S → Point R S → Prop
  | operand {limit : Nat} {F : Frames R} {n m : Node} {before after : List Node} {s t : Session R S}
      {qs : List (Quantity R)} (hn : n.isStrict = true) (hm : n.operands = before ++ m :: after)
      (hbefore : (evaluateAll (evaluateWithin limit) F before).run s = (.ok qs, t)) :
      Enters ⟨limit, F, n, s⟩ ⟨limit, F, m, t⟩
  /-- the body of a function that the program has defined, with the arguments in a frame -/
  | body {limit : Nat} {F : Frames R} {name : String} {arguments : List Node} {s t : Session R S}
      {qs : List (Quantity R)} {function : FunctionDefinition} {frame : Bindings (Quantity R)}
      (harguments : (evaluateAll (evaluateWithin (limit + 1)) F arguments).run s = (.ok qs, t))
      (hfunction : t.functions.get? name = some function) (hframe : callFrame function qs = .ok frame) :
      Enters ⟨limit + 1, F, .call name arguments, s⟩ ⟨limit, frame :: F, function.body, t⟩
  | bound {limit : Nat} {F : Frames R} {name : String} {bound inner : Node} {s : Session R S} :
      Enters ⟨limit, F, .letBinding name bound inner, s⟩ ⟨limit, F, bound, s⟩
  | inner {limit : Nat} {F : Frames R} {name : String} {bound inner : Node} {s t : Session R S}
      {q : Quantity R} (hbound : run ⟨limit, F, bound, s⟩ = (.ok (some q), t)) :
      Enters ⟨limit, F, .letBinding name bound inner, s⟩ ⟨limit, .ofList [(name, q)] :: F, inner, t⟩
  | condition {limit : Nat} {F : Frames R} {condition yes no : Node} {s : Session R S} :
      Enters ⟨limit, F, .ifExpression condition yes no, s⟩ ⟨limit, F, condition, s⟩
  /-- the first branch, unless the condition certainly fails -/
  | yes {limit : Nat} {F : Frames R} {condition yes no : Node} {s t : Session R S} {q : Quantity R}
      (hcondition : run ⟨limit, F, condition, s⟩ = (.ok (some q), t))
      (hopen : ∀ x, q.value = .scalar x → isTrue x = true) :
      Enters ⟨limit, F, .ifExpression condition yes no, s⟩ ⟨limit, F, yes, t⟩
  | no {limit : Nat} {F : Frames R} {condition yes no : Node} {s t : Session R S} {q : Quantity R} {x : R}
      (hcondition : run ⟨limit, F, condition, s⟩ = (.ok (some q), t)) (hx : q.value = .scalar x)
      (hfails : isTrue x = false) :
      Enters ⟨limit, F, .ifExpression condition yes no, s⟩ ⟨limit, F, no, t⟩
  /-- the second branch too, if the condition is uncertain -/
  | other {limit : Nat} {F : Frames R} {condition yes no : Node} {s t u : Session R S}
      {q first : Quantity R} {particles : Sample R}
      (hcondition : run ⟨limit, F, condition, s⟩ = (.ok (some q), t)) (hx : q.value = .sample particles)
      (hyes : run ⟨limit, F, yes, t⟩ = (.ok (some first), u)) :
      Enters ⟨limit, F, .ifExpression condition yes no, s⟩ ⟨limit, F, no, u⟩
  | assigned {limit : Nat} {F : Frames R} {name : String} {value : Node} {s : Session R S} :
      Enters ⟨limit, F, .assignment name value, s⟩ ⟨limit, F, value, s⟩
  | defined {limit : Nat} {F : Frames R} {name : String} {count : Decimal} {value : Node}
      {s : Session R S} (hcount : Scalar.isZero (Scalar.ofDecimal count : R) = false) :
      Enters ⟨limit, F, .unitDefinition name count value, s⟩ ⟨limit, F, value, s⟩
  | statement {limit : Nat} {F : Frames R} {node : Node} {before after : List Node} {s t : Session R S}
      {value : Option (Quantity R)}
      (hbefore : (evaluateLast (evaluateWithin limit) F none before).run s = (.ok value, t)) :
      Enters ⟨limit, F, .program (before ++ node :: after), s⟩ ⟨limit, F, node, t⟩

/-- The points that an evaluation comes through. -/
abbrev Reaches : Point R S → Point R S → Prop :=
  Relation.ReflTransGen Enters

/-! ## Faults -/

omit [Scalar R] [RandomSource S R] in
theorem run_required_of_error {node : Node} {m : Evaluation R S (Option (Quantity R))}
    {s t : Session R S} {f : Fault R} (h : m.run s = (.error f, t)) :
    (required node m).run s = (.error f, t) :=
  run_bind_of_error h

omit [Scalar R] [RandomSource S R] in
theorem run_required_of_ok {node : Node} {m : Evaluation R S (Option (Quantity R))}
    {s t : Session R S} {q : Quantity R} (h : m.run s = (.ok (some q), t)) :
    (required node m).run s = (.ok q, t) :=
  run_required_eq_ok.mpr h

theorem evaluateLast_append (body : TreeEvaluation R S) (F : Frames R) (before after : List Node)
    (value : Option (Quantity R)) : evaluateLast body F value (before ++ after) = (do
      let last ← evaluateLast body F value before
      evaluateLast body F last after) := by
  induction before generalizing value with
  | nil => simp [evaluateLast]
  | cons node rest ih => simp only [List.cons_append, evaluateLast, ih, bind_assoc]

/-- What is entered fails for what enters it. -/
theorem Enters.run_eq_error {p q : Point R S} (h : Enters p q) {f : Fault R} {t : Session R S}
    (hq : q.run = (.error f, t)) : p.run = (.error f, t) := by
  cases h with
  -- the operands in front of it have their values, and the list ends with its fault
  | operand hn hm hbefore =>
    rw [run, evaluateNode_operation _ _ hn, hm, evaluateAll_append]
    refine run_bind_of_error ((run_bind_of_ok hbefore).trans (run_bind_of_error ?_))
    rw [evaluateAll]
    exact run_bind_of_error (run_required_of_error hq)
  -- the arguments and the frame are there, so the call comes down to the body
  | body harguments hfunction hframe =>
    rw [run, evaluateNode]
    refine (run_bind_of_ok harguments).trans (run_map_of_error ?_)
    refine (run_bind_of_ok (run_get _)).trans ?_
    simp only [hfunction, hframe]
    exact (run_bind_of_ok (run_ofExcept _ _)).trans (run_required_of_error hq)
  | bound =>
    rw [run, evaluateNode]
    exact run_bind_of_error (run_required_of_error hq)
  | inner hbound =>
    rw [run, evaluateNode]
    exact (run_bind_of_ok (run_required_of_ok hbound)).trans
      (run_map_of_error (run_required_of_error hq))
  | condition =>
    rw [run, evaluateNode]
    exact run_bind_of_error (run_required_of_error hq)
  -- a condition of one particle is decided; one of several evaluates both branches, this one first
  | @yes _ _ _ _ _ _ _ c hcondition hopen =>
    rw [run, evaluateNode]
    refine (run_bind_of_ok (run_required_of_ok hcondition)).trans ?_
    rcases hc : c.value with x | particles
    · simp only [hopen x hc, if_true]
      exact run_map_of_error (run_required_of_error hq)
    · exact run_bind_of_error (run_required_of_error hq)
  | no hcondition hx hfails =>
    rw [run, evaluateNode]
    refine (run_bind_of_ok (run_required_of_ok hcondition)).trans ?_
    simp only [hx, hfails, Bool.false_eq_true, if_false]
    exact run_map_of_error (run_required_of_error hq)
  -- the other branch is reached only when the first has a value
  | other hcondition hx hyes =>
    rw [run, evaluateNode]
    refine (run_bind_of_ok (run_required_of_ok hcondition)).trans ?_
    simp only [hx]
    exact (run_bind_of_ok (run_required_of_ok hyes)).trans (run_bind_of_error (run_required_of_error hq))
  | assigned =>
    rw [run, evaluateNode]
    exact run_bind_of_error (run_required_of_error hq)
  | defined hcount =>
    rw [run, evaluateNode]
    simp only [hcount, Bool.false_eq_true, if_false]
    exact run_bind_of_error (run_required_of_error hq)
  -- the statements in front of it have run
  | statement hbefore =>
    rw [run, evaluateNode, evaluateLast_append]
    refine (run_bind_of_ok hbefore).trans ?_
    rw [evaluateLast]
    exact run_bind_of_error hq

/-- **A fault at a point is the fault of every evaluation that comes through it.** -/
theorem Reaches.run_eq_error {p q : Point R S} (h : Reaches p q) {f : Fault R} {t : Session R S}
    (hq : q.run = (.error f, t)) : p.run = (.error f, t) := by
  induction h with
  | refl => exact hq
  | tail _ hstep ih => exact ih (hstep.run_eq_error hq)

end Point

/-! ## Contracts -/

namespace Contract

variable {R S : Type} [Scalar R] [RandomSource S R] {c : Contract R S}

/-- The frames and the session of a point keep to a contract. -/
structure At (c : Contract R S) (p : Point R S) : Prop where
  frames : c.Framed p.frames
  session : c.Inv p.session

namespace Holds

open Point

variable (h : c.Holds)
include h

theorem run_kept {p : Point R S} {q : Quantity R} {t : Session R S} (hrun : p.run = (.ok (some q), t))
    (hF : c.Framed p.frames) (hs : c.Inv p.session) : c.Val q ∧ c.Inv t := by
  have hkept := h.evaluateNode_keeps (h.evaluateWithin_keeps p.limit) p.node hF p.session hs
  rw [← Point.run, hrun] at hkept
  exact ⟨hkept.1.of_ok rfl q rfl, hkept.2⟩

theorem evaluateAll_kept {limit : Nat} {F : Frames R} (hF : c.Framed F) {nodes : List Node}
    {s t : Session R S} (hs : c.Inv s) {qs : List (Quantity R)}
    (hrun : (evaluateAll (evaluateWithin limit) F nodes).run s = (.ok qs, t)) :
    (∀ q ∈ qs, c.Val q) ∧ c.Inv t := by
  have hkept := h.evaluateAll_keeps (h.evaluateWithin_keeps limit) nodes hF s hs
  rw [hrun] at hkept
  exact ⟨hkept.1.of_ok rfl, hkept.2⟩

/-- What is entered keeps to the contract, if what enters it does. -/
theorem enters {p q : Point R S} (hpq : Enters p q) (hp : c.At p) : c.At q := by
  cases hpq with
  | operand _ _ hbefore => exact ⟨hp.frames, (h.evaluateAll_kept hp.frames hp.session hbefore).2⟩
  -- the frame of a call holds arguments only, and these keep to the contract
  | body harguments hfunction hframe =>
    obtain ⟨hvalues, ht⟩ := h.evaluateAll_kept hp.frames hp.session harguments
    refine ⟨hp.frames.cons ?_, ht⟩
    rw [callFrame] at hframe
    split at hframe
    · cases hframe
      exact Bindings.All.ofList fun e he => hvalues e.2 (List.of_mem_zip he).2
    · cases hframe
  | inner hbound =>
    obtain ⟨hq, ht⟩ := h.run_kept hbound hp.frames hp.session
    refine ⟨hp.frames.cons (Bindings.All.ofList fun e he => ?_), ht⟩
    rw [List.mem_singleton.mp he]
    exact hq
  | bound | condition | assigned | defined => exact ⟨hp.frames, hp.session⟩
  | yes hcondition | no hcondition =>
    exact ⟨hp.frames, (h.run_kept hcondition hp.frames hp.session).2⟩
  | other hcondition _ hyes =>
    have ht := (h.run_kept hcondition hp.frames hp.session).2
    exact ⟨hp.frames, (h.run_kept hyes hp.frames ht).2⟩
  | @statement limit F _ before _ s _ _ hbefore =>
    have hnone : c.Opt (none : Option (Quantity R)) := fun _ hq =>
      absurd hq.symm (Option.some_ne_none _)
    have hkept := h.evaluateLast_keeps (h.evaluateWithin_keeps limit) before hp.frames hnone s hp.session
    rw [hbefore] at hkept
    exact ⟨hp.frames, hkept.2⟩

/-- **A contract holds throughout an evaluation.** -/
theorem reaches {p q : Point R S} (hpq : Reaches p q) (hp : c.At p) : c.At q := by
  induction hpq with
  | refl => exact hp
  | tail _ hstep ih => exact h.enters hstep ih

end Holds

end Contract

end Ballpark
