import Ballpark.Proofs.Operation

/-!
# Rules for expressions

What holds of every expression, whatever frames it stands in, is seen from the parts that evaluation is
put together from: units that are read, particles that are drawn, results that are given, one after
another, and the names and calls of the expression. A property that these have, and that lasts when a
frame is opened, is one of all expressions, by one induction (`Session.ExpressionRules.evaluateNode`). A
proof about expressions that follows these rules looks at no kind of node but names and calls.
-/

namespace Ballpark

/-- An expression reads the names that stand in it, where they are not names of functions. -/
inductive Node.Reads (name : String) : Node → Prop
  | identifier : Reads name (.identifier name)
  | part {n m : Node} (hm : m ∈ n.parts) (h : Reads name m) : Reads name n

namespace Session

variable {R S : Type}

/-- A property of computations in frames that a step of evaluation has if its parts have it. -/
structure StepRules (P : (α : Type) → (Frames R → Evaluation R S α) → Prop) : Prop where
  pure {α : Type} (a : α) : P α fun _ => Pure.pure a
  throw {α : Type} (f : Fault R) : P α fun _ => MonadExcept.throw f
  ofExcept {α : Type} (e : Except (Fault R) α) : P α fun _ => Evaluation.ofExcept e
  withUnits {α : Type} (f : Bindings (Quantity R) → Except (Fault R) α) : P α fun _ => withUnits f
  sampleIn (unit : CompoundUnit R) (sampler : Written R → SampleFrame R → Draw R S (Quantity R)) :
    P _ fun _ => sampleIn unit sampler
  bind {α β : Type} {m : Frames R → Evaluation R S α} {k : α → Frames R → Evaluation R S β}
    (hm : P α m) (hk : ∀ a, P β (k a)) : P β fun F => m F >>= fun a => k a F

namespace StepRules

variable {P : (α : Type) → (Frames R → Evaluation R S α) → Prop}

section

variable (h : StepRules P)
include h

theorem some {α : Type} {m : Frames R → Evaluation R S α} (hm : P α m) :
    P _ fun F => Option.some <$> m F := by
  simp only [map_eq_pure_bind]
  exact h.bind hm fun a => h.pure (Option.some a)

theorem required {m : Frames R → Evaluation R S (Option (Quantity R))} (hm : P _ m) (n : Node) :
    P _ fun F => required n (m F) := by
  refine h.bind hm fun value => ?_
  rcases value with _ | q
  · exact h.throw _
  · exact h.pure q

end

variable [Scalar R] [RandomSource S R] (h : StepRules P)
include h

theorem sigFig (text : String) (unit : Option String) : P _ fun _ => sigFig text unit :=
  h.bind (h.ofExcept _) fun _ => h.bind (h.sampleIn _ _) fun _ => h.withUnits _

/-- The step of an operation is that of a name, or else it is the same in all frames. -/
theorem step {n : Node} (hname : ∀ name, n = .identifier name → P _ fun F => identifier F name)
    (values : List (Quantity R)) : P _ fun F => step F n values := by
  fun_cases Session.step (R := R) (S := S) [] n values
  all_goals simp only [Session.step]
  -- in the order of the definition: units are read, operators applied, particles drawn
  · exact h.some (h.withUnits _)
  · exact h.some (h.sigFig _ _)
  · exact h.some (hname _ rfl)
  · exact h.some (h.withUnits _)
  · exact h.some (h.ofExcept _)
  · exact h.some (h.ofExcept _)
  · exact h.bind (h.withUnits _) fun bounds => h.some (h.sampleIn _ _)
  · exact h.bind (h.withUnits _) fun bounds => h.some (h.sampleIn _ _)
  · exact h.bind (h.withUnits _) fun bounds => h.some (h.sampleIn _ _)
  · exact h.some (h.sampleIn _ _)
  · exact h.some (h.sampleIn _ _)
  · exact h.bind (h.sampleIn _ _) fun q => h.some (h.withUnits _)
  · exact h.some (h.sampleIn _ _)
  · exact h.some (h.sampleIn _ _)
  · exact h.some (h.withUnits _)
  · exact h.throw _

end StepRules

variable [Scalar R] [RandomSource S R]

/-- A property of computations in frames that an expression has if its names have it, given how the
bodies of functions are evaluated. -/
structure ExpressionRules (body : TreeEvaluation R S)
    (P : (α : Type) → (Frames R → Evaluation R S α) → Prop) : Prop extends StepRules P where
  /-- a frame may be opened -/
  opened {α : Type} {m : Frames R → Evaluation R S α} (hm : P α m) (frame : Bindings (Quantity R)) :
    P α fun F => m (frame :: F)
  call (name : String) (arguments : List (Quantity R)) :
    P _ fun F => callFunction body F name arguments

namespace ExpressionRules

variable {body : TreeEvaluation R S} {P : (α : Type) → (Frames R → Evaluation R S α) → Prop}
  (h : ExpressionRules body P)
include h

theorem evaluateAll {nodes : List Node} (hnodes : ∀ n ∈ nodes, P _ fun F => evaluateNode body F n) :
    P _ fun F => evaluateAll body F nodes := by
  induction nodes with
  | nil =>
    simp only [Session.evaluateAll]
    exact h.pure []
  | cons n rest ih =>
    obtain ⟨hn, hrest⟩ := List.forall_mem_cons.mp hnodes
    simp only [Session.evaluateAll]
    exact h.bind (h.required hn n) fun q => h.bind (ih hrest) fun qs => h.pure (q :: qs)

/-- **The rules reach every expression**: induction on the expression. -/
theorem evaluateNode {n : Node} (hn : n.IsExpression)
    (hnames : ∀ name, n.Reads name → P _ fun F => identifier F name) :
    P _ fun F => evaluateNode body F n := by
  induction hn with
  | @operation n hoperation hoperands ih =>
    have hvalue : ∀ m ∈ n.operands, P _ fun F => Session.evaluateNode body F m := fun m hm =>
      ih m hm fun name hreads => hnames name (.part (Node.parts_of_isOperation hoperation ▸ hm) hreads)
    rcases n.isStrict_or_of_isOperation hoperation with hstrict | ⟨condition, yes, no, rfl⟩
    · simp only [evaluateNode_operation _ _ hstrict]
      refine h.bind (h.evaluateAll hvalue) fun values => ?_
      -- a call has a rule of its own, all other strict operations share one
      rcases hcall : n.isCall with _ | _
      · simp only [perform_of_not_call _ _ hcall]
        exact h.step (n := n) (fun name heq => hnames name (heq ▸ .identifier)) values
      · cases n with
        | call name arguments => exact h.some (h.call name values)
        | _ => cases hcall
    · -- a conditional evaluates its condition, and then one branch or both
      have hyes := h.required (hvalue yes (by simp [Node.operands])) yes
      have hno := h.required (hvalue no (by simp [Node.operands])) no
      simp only [Session.evaluateNode]
      refine h.bind (h.required (hvalue condition (by simp [Node.operands])) condition) fun q => ?_
      rcases q.value with x | s
      · by_cases hx : isTrue x = true
        · simp only [hx, if_true]
          exact h.some hyes
        · simp only [hx]
          exact h.some hno
      · exact h.bind hyes fun x => h.bind hno fun y => h.some (h.ofExcept _)
  | @letBinding name bound inner _ _ hbound hinner =>
    have hq := hbound fun name hreads => hnames name (.part (by simp [Node.parts]) hreads)
    have hrest := hinner fun name hreads => hnames name (.part (by simp [Node.parts]) hreads)
    simp only [Session.evaluateNode]
    exact h.bind (h.required hq bound) fun q => h.some (h.required (h.opened hrest _) inner)

end ExpressionRules

end Session

end Ballpark
