import Ballpark.Proofs.RangeUnits
import Ballpark.Proofs.PinnedExpressions
import Ballpark.Proofs.NodeEquality

/-!
# Pinning a variable

A pin keeps what is drawn elsewhere as it is, in a program that draws the same whatever the value of the
pinned variable is: what does not depend on the variable has the same particles with the pin and without
it (`Session.pinning_keeps_particles`). Each statement keeps the two sessions in agreement, and so does by
induction a whole program. Without the condition this fails: a choice that depends on the pinned variable
may draw in one of its branches only (`Session.choice_shifts_draws`).
-/

namespace Ballpark

variable {R S : Type} [Scalar R]

namespace Pinning

variable {p : Pinning R}

/-- The pin of a variable in a program. -/
def ofProgram {statements : List Node} (h : ∀ n ∈ statements, n.IsStatement) {name : String}
    (hdrawn : Constant.NotDrawn R name) : Pinning R where
  name := name
  functions := Node.definedFunctions statements
  apart := {item | Dependent R statements name item}
  itself := .itself
  isExpression _ hf := Node.isExpression_of_mem_definedFunctions h hf
  notDrawn := hdrawn

/-! ## What statements define -/

theorem Agree.setVariable {s s' : Session R S} (h : p.Agree s s') {name : String} {q q' : Quantity R}
    (hvalue : .variable name ∉ p.apart → q = q') : p.Agree (s.setVariable name q) (s'.setVariable name q') :=
  { h with
    values := fun other hother => by
      show (s.values.set name q).get? other = (s'.values.set name q').get? other
      rw [Bindings.get?_set, Bindings.get?_set]
      split
      · rename_i heq
        rw [hvalue (heq ▸ hother)]
      · exact h.values other hother
    present := fun other hother => by
      show ((s.values.set name q).get? other).isSome = ((s'.values.set name q').get? other).isSome
      rw [Bindings.get?_set, Bindings.get?_set]
      split
      · rfl
      · exact h.present other hother }

theorem Agree.setUnit {s s' : Session R S} (h : p.Agree s s') {name : String} {q q' : Quantity R}
    (hvalue : .label name ∉ p.apart → q = q') :
    p.Agree { s with units := s.units.set name q } { s' with units := s'.units.set name q' } :=
  { h with
    units := fun other hother => by
      show (s.units.set name q).get? other = (s'.units.set name q').get? other
      rw [Bindings.get?_set, Bindings.get?_set]
      split
      · rename_i heq
        rw [hvalue (heq ▸ hother)]
      · exact h.units other hother }

theorem Agree.setFunction {s s' : Session R S} (h : p.Agree s s') {function : FunctionDefinition}
    (hfunction : function ∈ p.functions) :
    p.Agree { s with functions := s.functions.set function.name function }
      { s' with functions := s'.functions.set function.name function } :=
  { h with
    functions := by
      rw [h.functions]
    defined := fun name f hf => by
      rw [Bindings.get?_set] at hf
      split at hf
      · rename_i heq
        cases hf
        exact ⟨hfunction, heq.symm⟩
      · exact h.defined name f hf }

/-- Only the pinned variable is assigned to in different ways. -/
theorem paced_assign {name : String} {q q' : Quantity R} (hvalue : .variable name ∉ p.apart → q = q') :
    p.Paced (Session.assign name q : Evaluation R S _) (Session.assign name q') := by
  intro s s' hs a t a' t' h h'
  cases h
  cases h'
  refine ⟨trivial, hs.setVariable fun hname => ?_⟩
  have hother : name ≠ p.name := fun heq => hname (heq ▸ p.itself)
  rw [(hs.pins name hother).1, (hs.pins name hother).2]
  exact hvalue hname

theorem paced_defineUnit {name : String} {count : R} {q q' : Quantity R}
    (hvalue : .label name ∉ p.apart → q = q') :
    p.Paced (Session.defineUnit name count q : Evaluation R S _) (Session.defineUnit name count q') := by
  have hunit : Coupled p.Agree (Evaluation.ofExcept (Session.unitOf name count q) : Evaluation R S _)
      (Evaluation.ofExcept (Session.unitOf name count q')) fun u u' => .label name ∉ p.apart → u = u' := by
    refine coupled_ofExcept fun u u' hu hu' hname => ?_
    rw [hvalue hname] at hu
    exact Except.ok.inj (hu.symm.trans hu')
  refine Coupled.bind hunit fun u u' hu => ?_
  exact Coupled.bind (Coupled.modify fun s s' hs => hs.setUnit hu) fun _ _ _ => .pure trivial

/-! ## Statements -/

/-- Outside of all bindings what may differ is what the program makes so. -/
theorem Scopes.nil : p.Scopes p.apart [] [] where
  present _ := rfl
  values _ _ := rfl
  free _ hname _ := hname
  labels _ := id

section

variable [RandomSource S R] {signature : Node.Signature} (hsound : signature.Sound R p.functions) (limit : Nat)
include hsound

/-- The value of a steady expression in a program: a known one if it mentions nothing of the difference. -/
theorem coupled_value {e : Node} (he : e.IsExpression) (hsteady : e.Steady R p.functions signature p.apart) :
    Coupled p.Agree
      (Session.required e (Session.evaluateNode (Session.evaluateWithin limit) [] e : Evaluation R S _))
      (Session.required e (Session.evaluateNode (Session.evaluateWithin limit) [] e))
      fun q q' => e.Avoids R p.functions p.apart → q = q' := by
  have hsame : p.SameBodies (Session.evaluateNode (Session.evaluateWithin limit) : TreeEvaluation R S) :=
    evaluateWithin_same (limit + 1)
  have hpaced : p.PacedBodies signature
      (Session.evaluateNode (Session.evaluateWithin limit) : TreeEvaluation R S) :=
    evaluateWithin_paced hsound (limit + 1)
  by_cases havoid : e.Avoids R p.functions p.apart
  · exact (hsame he havoid Scopes.nil).required.mono fun _ _ hq _ => hq
  · exact (hpaced he hsteady Scopes.nil).required.mono fun _ _ _ h => absurd h havoid

/-- A statement with a steady expression keeps the sessions in agreement, if what it defines is no more
known than the expression. -/
theorem paced_statement {n : Node} (hn : n.IsStatement)
    (hsteady : ∀ e, n.evaluated? = some e → e.Steady R p.functions signature p.apart)
    (hassigned : ∀ name value, n = .assignment name value →
      .variable name ∉ p.apart → value.Avoids R p.functions p.apart)
    (hdefined : ∀ label count value, n = .unitDefinition label count value →
      .label label ∉ p.apart → value.Avoids R p.functions p.apart)
    (hfunction : ∀ f, n.definedFunction? = some f → f ∈ p.functions) :
    p.Paced (Session.evaluateNode (Session.evaluateWithin limit) [] n : Evaluation R S _)
      (Session.evaluateNode (Session.evaluateWithin limit) [] n) := by
  cases hn with
  -- an expression by itself: nothing is stored
  | expression he =>
    refine evaluateWithin_paced hsound (limit + 1) he (hsteady n ?_) Scopes.nil
    cases he with
    | operation hn =>
      cases n with
      | assignment | unitDefinition | functionDefinition => cases hn
      | _ => rfl
    | letBinding => rfl
  -- the sessions then differ in a variable only if it is one that may differ
  | assignment hvalue =>
    rename_i name value
    rw [Session.evaluateNode]
    refine Coupled.bind (coupled_value hsound limit hvalue (hsteady value rfl)) fun q q' hq => Paced.some ?_
    exact paced_assign fun hname => hq (hassigned name value rfl hname)
  | unitDefinition hvalue =>
    rename_i label count value
    rw [Session.evaluateNode]
    split
    · exact .throw _
    · refine Coupled.bind (coupled_value hsound limit hvalue (hsteady value rfl)) fun q q' hq => Paced.some ?_
      exact paced_defineUnit fun hlabel => hq (hdefined label count value rfl hlabel)
  -- the bodies of functions are the same on both sides
  | functionDefinition =>
    rw [Session.evaluateNode]
    refine Coupled.bind (Coupled.modify fun s s' hs => hs.setFunction (hfunction _ rfl)) fun _ _ _ => ?_
    exact .pure trivial

end

/-- The statements of a program, one after the other. -/
theorem paced_evaluateLast [RandomSource S R] {body : TreeEvaluation R S} {statements : List Node}
    (h : ∀ n ∈ statements, p.Paced (Session.evaluateNode body [] n) (Session.evaluateNode body [] n))
    (value value' : Option (Quantity R)) : p.Paced (Session.evaluateLast body [] value statements)
      (Session.evaluateLast body [] value' statements) := by
  induction statements generalizing value value' with
  | nil =>
    rw [Session.evaluateLast, Session.evaluateLast]
    exact .pure trivial
  | cons n rest ih =>
    obtain ⟨hn, hrest⟩ := List.forall_mem_cons.mp h
    rw [Session.evaluateLast, Session.evaluateLast]
    exact Coupled.bind hn fun next next' _ => ih hrest next next'

/-- A new session and one in which only the variable is pinned. -/
theorem agree_ofSettings [RandomSource S R] (p : Pinning R) (settings : Settings R) (q : Quantity R) :
    p.Agree (Session.ofSettings settings : Session R S)
      ((Session.ofSettings settings).pinVariable p.name q) where
  settings := rfl
  source := rfl
  functions := rfl
  defined _ _ hf := nomatch hf
  values name hname := by
    have hother : name ≠ p.name := fun heq => hname (heq ▸ p.itself)
    exact ((Bindings.get?_set _ _ _ _).trans (if_neg hother)).symm
  present name hname := congrArg Option.isSome ((Bindings.get?_set _ _ _ _).trans (if_neg hname)).symm
  pins name hname := ⟨rfl, (Bindings.get?_set _ _ _ _).trans (if_neg hname)⟩
  units _ _ := rfl
  drawn _ _ _ _ := rfl
  exact := ⟨fun _ _ _ _ _ h => (nomatch h), fun _ _ _ _ _ h => (nomatch h)⟩

end Pinning

namespace Session

variable [RandomSource S R]

theorem run_evaluate_of_parsed {source : String} {statements : List Node}
    (h : Node.statementsOfText source = .ok statements) (s : Session R S) :
    (evaluate source : Evaluation R S _).run s =
      (evaluateLast (evaluateWithin callLimit) [] none statements).run s := by
  have hread : (reading (Node.ofText source) : Evaluation R S _).run s = (.ok (.program statements), s) := by
    rw [Node.ofText, h]
    rfl
  rw [evaluate, Evaluation.run_bind_of_ok hread, evaluateTree, evaluateWithin, evaluateNode]

/-- **A pin leaves the particles of the other variables alone**, in a program that draws the same whatever
the value of the pinned variable is: evaluated in a new session and in one with the pin, it gives every
variable that does not depend on the pinned one the same value. -/
theorem pinning_keeps_particles {source : String} {statements : List Node}
    (hread : Node.statementsOfText source = .ok statements) {name : String}
    (hdrawn : Constant.NotDrawn R name) (hsteady : SteadyProgram R statements name)
    (settings : Settings R) (pin : Quantity R) {value value' : Option (Quantity R)} {t t' : Session R S}
    (hrun : (evaluate source).run (ofSettings settings) = (.ok value, t))
    (hrun' : (evaluate source).run (pinVariable name pin (ofSettings settings)) = (.ok value', t'))
    {other : String} (hother : ¬Dependent R statements name (.variable other)) :
    t.values.get? other = t'.values.get? other := by
  obtain ⟨signature, hsound, hsteady⟩ := hsteady
  have hstatements := Node.isStatement_of_read hread
  let p : Pinning R := .ofProgram hstatements hdrawn
  have hnodes : ∀ n ∈ statements, p.Paced (evaluateNode (evaluateWithin callLimit) [] n : Evaluation R S _)
      (evaluateNode (evaluateWithin callLimit) [] n) := fun n hn => by
    refine Pinning.paced_statement hsound callLimit (hstatements n hn) (hsteady n hn) ?_ ?_ ?_
    · rintro name value rfl hname item hitem hdependent
      exact hname (.assigned hn hitem hdependent)
    · rintro label count value rfl hlabel item hitem hdependent
      exact hlabel (.defined hn hitem hdependent)
    · exact fun f hf => List.mem_filterMap.mpr ⟨n, hn, hf⟩
  rw [run_evaluate_of_parsed hread] at hrun hrun'
  have hagree := (Pinning.paced_evaluateLast hnodes none none _ _ (p.agree_ofSettings settings pin) _ _ _ _
    hrun hrun').2
  exact hagree.values other hother

/-! ## Programs that draw twice -/

/-- The uniform numbers between zero and one. -/
def unitRange : Node :=
  .uniformRange (.number (.ofNat 0) none) (.number (.ofNat 1) none) none

/-- The statements `x = 1`, one for `y`, and `z = 0 .. 1`. -/
def drawAfter (second : Node) : List Node :=
  [.assignment "x" (.number (.ofNat 1) none), .assignment "y" second, .assignment "z" unitRange]

/-- `x .. 3` -/
def rangeFromX : Node :=
  .uniformRange (.identifier "x") (.number (.ofNat 3) none) none

/-- `if x then 3 else 0 .. 1` -/
def choiceByX : Node :=
  .ifExpression (.identifier "x") (.number (.ofNat 3) none) unitRange

theorem not_mentions_number {functions : List FunctionDefinition} {item : Item} (d : Decimal) :
    ¬(Node.number d none).Mentions R functions item := by
  intro h
  cases h with
  | unit htext => cases htext
  | operand hm => cases hm

theorem not_mentions_unitRange {functions : List FunctionDefinition} {item : Item} :
    ¬unitRange.Mentions R functions item := by
  intro h
  cases h with
  | unit htext => cases htext
  | operand hm h =>
    simp only [unitRange, Node.operands, List.mem_cons, List.not_mem_nil, or_false] at hm
    rcases hm with rfl | rfl
    · exact not_mentions_number _ h
    · exact not_mentions_number _ h

/-- The last of these variables depends on none of the others. -/
theorem not_dependent_drawAfter (second : Node) :
    ¬Dependent R (drawAfter second) "x" (.variable "z") := by
  intro h
  generalize hz : Item.variable "z" = z at h
  cases h with
  | itself => exact absurd (Item.variable.inj hz) (by decide)
  | assigned h hmentions =>
    cases hz
    simp only [drawAfter, List.mem_cons, Node.assignment.injEq, List.not_mem_nil, or_false] at h
    rcases h with ⟨hname, -⟩ | ⟨hname, -⟩ | ⟨-, rfl⟩
    · exact absurd hname (by decide)
    · exact absurd hname (by decide)
    · exact not_mentions_unitRange hmentions
  | defined => cases hz

section

open Evaluation

variable {S : Type} [RandomSource S ℝ] {body : TreeEvaluation ℝ S} {F : Frames ℝ}

/-- A variable that has a value. -/
theorem run_variable {name : String} {q : Quantity ℝ} {s : Session ℝ S}
    (h : s.values.get? name = some q) :
    (required (.identifier name) (evaluateNode body [] (.identifier name))).run s = (.ok q, s) := by
  have hvalue : (valueOf? name).run s = (.ok (some q), s) := by
    rw [valueOf?, run_bind_of_ok (run_get s), h]
    rfl
  rw [run_required_eq_ok, evaluateNode, run_some_eq_ok, identifier, lookup?]
  exact run_bind_of_ok hvalue

/-- A uniform range between plain numbers. -/
theorem run_uniformRange {left right : Node} {a b : ℝ} (hab : a < b) {s : Session ℝ S}
    (hleft : (required left (evaluateNode body F left)).run s = (.ok (.plain a), s))
    (hright : (required right (evaluateNode body F right)).run s = (.ok (.plain b), s)) :
    let drawn := Draw.sampleOf RandomSource.uniform s.settings.sampleCount s.source
    (evaluateNode body F (.uniformRange left right none)).run s =
      (.ok (some ⟨.sample (drawn.1.map fun u => a + (b - a) * u), .one⟩), { s with source := drawn.2 }) := by
  have hbound : ∀ x : ℝ, boundIn (.one : CompoundUnit ℝ) 1 (.plain x) = .ok x := fun x =>
    (boundIn_plain .one 1 (hasUnit_plain x)).trans (congrArg Except.ok (mul_one x))
  have hunit : (if true = true then if (Quantity.plain b).hasUnit then (Quantity.plain b).unit
      else (Quantity.plain a).unit else if (Quantity.plain a).hasUnit then (Quantity.plain a).unit
      else (Quantity.plain b).unit) = .one := (if_pos rfl).trans (ite_self _)
  have hbounds : (withUnits (looseBounds · (.plain a) (.plain b) true none)).run s =
      (.ok (⟨a, b, .one⟩ : Bounds ℝ), s) := by
    rw [run_withUnits, looseBounds_own hunit (hbound a) (hbound b)]
  have hdraw := Sampler.uniform_run hab s.settings.sampleCount .one s.source
  rw [evaluateNode, run_bind_of_ok hleft, run_bind_of_ok hright, run_bind_of_ok hbounds]
  exact RangeForm.run_sampleIn (f := fun _ frame => Sampler.uniform a b frame) hdraw

theorem run_ofNat (body : TreeEvaluation ℝ S) (F : Frames ℝ) (n : Nat) (s : Session ℝ S) :
    (required (.number (.ofNat n) none) (evaluateNode body F (.number (.ofNat n) none))).run s =
      (.ok (.plain (n : ℝ)), s) := by
  have hvalue : ((Decimal.ofNat n).value : ℝ) = n := Scalar.ofDecimal_ofNat n
  rw [RangeForm.run_number, hvalue]

theorem run_unitRange (s : Session ℝ S) :
    let drawn := Draw.sampleOf RandomSource.uniform s.settings.sampleCount s.source
    (evaluateNode body F unitRange).run s =
      (.ok (some ⟨.sample drawn.1, .one⟩), { s with source := drawn.2 }) := by
  have hmap : ∀ r : Sample ℝ, (r.map fun u => ((0 : Nat) : ℝ) + ((1 : Nat) - (0 : Nat)) * u) = r := by
    simp [Sample.map]
  intro drawn
  rw [unitRange, run_uniformRange (by norm_num) (run_ofNat body F 0 s) (run_ofNat body F 1 s), hmap]

/-- A choice by a plain number is one of its branches. -/
theorem run_choice {condition yes no : Node} {c : ℝ} {s : Session ℝ S}
    (h : (required condition (evaluateNode body F condition)).run s = (.ok (.plain c), s)) :
    (evaluateNode body F (.ifExpression condition yes no)).run s =
      (if isTrue c then some <$> required yes (evaluateNode body F yes)
        else some <$> required no (evaluateNode body F no)).run s := by
  rw [evaluateNode, run_bind_of_ok h]
  rfl

theorem run_choiceByX_of_ne (body : TreeEvaluation ℝ S) {c : ℝ} (hc : c ≠ 0) {s : Session ℝ S}
    (hx : s.values.get? "x" = some (.plain c)) :
    (evaluateNode body [] choiceByX).run s = (.ok (some (.plain (3 : Nat))), s) := by
  rw [choiceByX, run_choice (run_variable hx), if_pos (by simp [isTrue, hc])]
  exact run_some_eq_ok.mpr (run_ofNat _ _ 3 _)

theorem run_choiceByX_of_zero (body : TreeEvaluation ℝ S) {s : Session ℝ S}
    (hx : s.values.get? "x" = some (.plain 0)) :
    (evaluateNode body [] choiceByX).run s = (evaluateNode body [] unitRange).run s := by
  rw [choiceByX, run_choice (run_variable hx), if_neg (by simp [isTrue]), run_unitRange]
  exact run_some_eq_ok.mpr (run_required_eq_ok.mpr (run_unitRange _))

theorem run_assignment (name : String) {value : Node} {q : Quantity ℝ} {s t : Session ℝ S}
    (h : (evaluateNode body F value).run s = (.ok (some q), t)) :
    (evaluateNode body F (.assignment name value)).run s =
      (.ok (some ((t.pins.get? name).getD q)), t.setVariable name ((t.pins.get? name).getD q)) := by
  rw [evaluateNode, run_bind_of_ok (run_required_eq_ok.mpr h)]
  rfl

/-- What is drawn for `z` is what the source gives behind the second statement. -/
theorem run_drawAfter {source : String} {second : Node}
    (hread : Node.statementsOfText source = .ok (drawAfter second)) {s : Session ℝ S} {c : ℝ}
    (hx : (s.pins.get? "x").getD (.plain (1 : Nat)) = .plain c) (hz : s.pins.get? "z" = none)
    {q : Quantity ℝ} {u : S}
    (h : (evaluateNode (evaluateWithin callLimit) [] second).run (s.setVariable "x" (.plain c)) =
      (.ok (some q), { s.setVariable "x" (.plain c) with source := u })) :
    ∃ value r, (evaluate source).run s = (.ok value, r) ∧ r.values.get? "z" =
      some ⟨.sample (Draw.sampleOf RandomSource.uniform s.settings.sampleCount u).1, .one⟩ := by
  have hfirst := run_assignment "x" (run_required_eq_ok.mp (run_ofNat (evaluateWithin callLimit) [] 1 s))
  rw [hx] at hfirst
  have hlast : (evaluate source).run s =
      (evaluateNode (evaluateWithin callLimit) [] (.assignment "z" unitRange)).run
        (setVariable "y" ((s.pins.get? "y").getD q) { s.setVariable "x" (.plain c) with source := u }) := by
    rw [run_evaluate_of_parsed hread, drawAfter, evaluateLast, run_bind_of_ok hfirst, evaluateLast,
      run_bind_of_ok (run_assignment "y" h), evaluateLast]
    simp only [evaluateLast, bind_pure]
    rfl
  have hunpinned : ∀ d : Quantity ℝ, (s.pins.get? "z").getD d = d := fun d => by
    rw [hz, Option.getD_none]
  refine ⟨_, _, hlast.trans (run_assignment "z" (run_unitRange _)), ?_⟩
  exact (Bindings.get?_set _ _ _ _).trans ((if_pos rfl).trans (congrArg some (hunpinned _)))

end

theorem statementsOfText_rangeFromX :
    Node.statementsOfText "x = 1\ny = x .. 3\nz = 0 .. 1" = .ok (drawAfter rangeFromX) :=
  Node.statementsOfText_of_toOption (by decide +kernel)

theorem statementsOfText_choiceByX :
    Node.statementsOfText "x = 1\ny = if x then 3 else 0 .. 1\nz = 0 .. 1" =
      .ok (drawAfter choiceByX) :=
  Node.statementsOfText_of_toOption (by decide +kernel)

theorem not_drawn_x : Constant.NotDrawn ℝ "x" := by
  intro c hc
  have hnone : (Constant.ofName? "x" : Option (Constant ℝ)).isNone = true := by
    decide +kernel
  rw [hc] at hnone
  cases hnone

theorem steady_drawAfter_rangeFromX : SteadyProgram ℝ (drawAfter rangeFromX) "x" := by
  refine .of_even (fun n hn e he => ?_) "x"
  have hleaf : ∀ m : Node, m.isPaced = true → m.operands = [] → m.Even := fun m hm hoperands =>
    .paced hm fun k hk => absurd (hoperands ▸ hk) List.not_mem_nil
  have hrange : ∀ left right : Node, left.Even → right.Even → (Node.uniformRange left right none).Even :=
    fun left right hleft hright => .paced rfl (by simp [Node.operands, hleft, hright])
  simp only [drawAfter, List.mem_cons, List.not_mem_nil, or_false] at hn
  rcases hn with rfl | rfl | rfl
  · cases he
    exact hleaf _ rfl rfl
  · cases he
    exact hrange _ _ (hleaf _ rfl rfl) (hleaf _ rfl rfl)
  · cases he
    exact hrange _ _ (hleaf _ rfl rfl) (hleaf _ rfl rfl)

/-- A source that tells by its numbers how many have been drawn. -/
structure CountingSource where
  drawn : Nat

noncomputable instance : RandomSource CountingSource ℝ where
  uniform s := (1 / (s.drawn + 2), ⟨s.drawn + 1⟩)
  normal s := (0, ⟨s.drawn + 1⟩)
  seeded _ := ⟨0⟩

/-- A new session with a seed and one particle. -/
noncomputable def counting : Session ℝ CountingSource :=
  .ofSettings ⟨⟨1, by decide⟩, .decimal 0.9, some 1⟩

theorem sampleOf_counting (n : Nat) :
    (Draw.sampleOf RandomSource.uniform ⟨1, one_pos⟩ (⟨n⟩ : CountingSource)).1 = ⟨1 / ((n : ℝ) + 2), []⟩ :=
  rfl

/-- A variable has the value that it has been set to. -/
theorem setVariable_values {S : Type} (name : String) (q : Quantity ℝ) (s : Session ℝ S) :
    (s.setVariable name q).values.get? name = some q :=
  (Bindings.get?_set _ _ _ _).trans (if_pos rfl)

/-- `z` is the same whether `x` is one or pinned to two. -/
theorem range_beside_pin :
    let source := "x = 1\ny = x .. 3\nz = 0 .. 1"
    ∃ value t value' t', (evaluate source).run counting = (.ok value, t) ∧
      (evaluate source).run (pinVariable "x" (.plain (2 : ℝ)) counting) = (.ok value', t') ∧
        t.values.get? "z" = t'.values.get? "z" := by
  have hsecond : ∀ c : ℝ, c < (3 : Nat) → ∀ s : Session ℝ CountingSource,
      s.values.get? "x" = some (.plain c) → ∃ q u,
        (evaluateNode (evaluateWithin callLimit) [] rangeFromX).run s =
          (.ok (some q), { s with source := u }) := fun c hc s hx =>
    ⟨_, _, run_uniformRange hc (run_variable hx) (run_ofNat _ _ 3 s)⟩
  obtain ⟨q, u, hsecond₁⟩ := hsecond (1 : Nat) (by norm_num) _ (setVariable_values "x" _ counting)
  obtain ⟨q', u', hsecond₂⟩ := hsecond 2 (by norm_num) _
    (setVariable_values "x" _ (pinVariable "x" (.plain 2) counting))
  obtain ⟨value, t, hrun, -⟩ := run_drawAfter statementsOfText_rangeFromX rfl rfl hsecond₁
  obtain ⟨value', t', hrun', -⟩ := run_drawAfter statementsOfText_rangeFromX rfl rfl hsecond₂
  exact ⟨value, t, value', t', hrun, hrun', pinning_keeps_particles statementsOfText_rangeFromX not_drawn_x
    steady_drawAfter_rangeFromX _ _ hrun hrun' (not_dependent_drawAfter _)⟩

/-- A choice shifts what is drawn after it: `z` does not depend on `x`, but is another number if `x` is
pinned to zero. -/
theorem choice_shifts_draws :
    let source := "x = 1\ny = if x then 3 else 0 .. 1\nz = 0 .. 1"
    ∃ statements, Node.statementsOfText source = .ok statements ∧
      ¬Dependent ℝ statements "x" (.variable "z") ∧
      ∃ value t value' t', (evaluate source).run counting = (.ok value, t) ∧
        (evaluate source).run (pinVariable "x" (.plain (0 : ℝ)) counting) = (.ok value', t') ∧
          t.values.get? "z" ≠ t'.values.get? "z" := by
  refine ⟨_, statementsOfText_choiceByX, not_dependent_drawAfter _, ?_⟩
  have hyes := run_choiceByX_of_ne (evaluateWithin callLimit) (Nat.cast_ne_zero.mpr one_ne_zero)
    (setVariable_values "x" (.plain ((1 : Nat) : ℝ)) counting)
  have hno := (run_choiceByX_of_zero (evaluateWithin callLimit)
    (setVariable_values "x" (.plain (0 : ℝ)) (pinVariable "x" (.plain 0) counting))).trans (run_unitRange _)
  obtain ⟨value, t, hrun, hz⟩ :=
    run_drawAfter (S := CountingSource) (u := ⟨0⟩) statementsOfText_choiceByX rfl rfl hyes
  obtain ⟨value', t', hrun', hz'⟩ :=
    run_drawAfter (S := CountingSource) (u := ⟨1⟩) statementsOfText_choiceByX rfl rfl hno
  refine ⟨value, t, value', t', hrun, hrun', ?_⟩
  -- with the pin one number more has been drawn before `z`
  have hcount : counting.settings.sampleCount = ⟨1, one_pos⟩ := rfl
  have hcount' : (pinVariable "x" (.plain 0) counting).settings.sampleCount = ⟨1, one_pos⟩ := rfl
  rw [hz, hz', hcount, hcount', sampleOf_counting, sampleOf_counting]
  simp

end Session

end Ballpark
