import Ballpark.Proofs.AlikeQuantities
import Ballpark.Proofs.Coupling
import Ballpark.Proofs.Dependence
import Ballpark.Proofs.Operation
import Ballpark.Proofs.SamplerOutcome

/-!
# Sessions alike

Two sessions that draw from different sources hold alike quantities under the same names
(`Session.Alike`). Every sampler gives particles in the unit that it is told, whatever it draws
(`SampleFrame.Gives.coupled`), so steps of evaluation that succeed in both sessions keep them alike and give
alike quantities. This needs expressions that choose nothing and whose exponents are fixed numbers
(`Node.Settled`): a choice may take another branch in the other session, and what an exponent is enters the
unit of a power.
-/

namespace Ballpark

open Quantity

variable {R S S' α β : Type}

/-! ## Settled expressions -/

namespace Node

/-- The nodes that stand in a node as exponents. -/
def exponents : Node → List Node
  | .binary .power _ exponent => [exponent]
  | .call name arguments => if name = "pow" then arguments[1]?.toList else []
  | _ => []

/-- Is the node a choice between two expressions? -/
def isChoice : Node → Bool
  | .ifExpression .. => true
  | _ => false

/-- A number literal, or arithmetic on such, in whose units none of the labels stands. -/
inductive IsFixed (R : Type) [Scalar R] (labels : List String) : Node → Prop
  | literal {x : Decimal} {unit : Option String} (h : ∀ text, Session.written? unit = some text →
      ∀ label, UnitMentions R label text → label ∉ labels) : IsFixed R labels (.number x unit)
  | unary {op : UnaryOperator} {operand : Node} (h : IsFixed R labels operand) :
      IsFixed R labels (.unary op operand)
  | binary {op : BinaryOperator} {left right : Node} (hleft : IsFixed R labels left)
      (hright : IsFixed R labels right) : IsFixed R labels (.binary op left right)

/-- A node that is no choice and whose exponents have a property. -/
structure Settled (P : Node → Prop) (n : Node) : Prop where
  noChoice : n.isChoice = false
  exponents : ∀ e ∈ n.exponents, P e

/-- A unit that the node defines is among the labels, unless its definition is fixed. -/
def DefinesFixed (R : Type) [Scalar R] (labels : List String) : Node → Prop
  | .unitDefinition name _ definition => name ∈ labels ∨ definition.IsFixed R labels
  | _ => True

end Node

variable [Scalar R]

namespace Node

variable {labels : List String}

/-- Two values of a node that are alike; those of a fixed number are the same. -/
structure ValuesAlike (labels : List String) (n : Node) (q q' : Quantity R) : Prop where
  alike : q.Alike q'
  fixed : n.IsFixed R labels → q = q'

/-- Values of some nodes that are alike one by one. -/
inductive AllAlike (labels : List String) : List Node → List (Quantity R) → List (Quantity R) → Prop
  | nil : AllAlike labels [] [] []
  | cons {n : Node} {nodes : List Node} {q q' : Quantity R} {qs qs' : List (Quantity R)}
      (hq : n.ValuesAlike labels q q') (h : AllAlike labels nodes qs qs') :
      AllAlike labels (n :: nodes) (q :: qs) (q' :: qs')

namespace AllAlike

variable {nodes : List Node} {qs qs' : List (Quantity R)}

theorem forall₂ (h : AllAlike labels nodes qs qs') : List.Forall₂ Alike qs qs' := by
  induction h with
  | nil => exact .nil
  | cons hq _ ih => exact .cons hq.alike ih

/-- The values at the place of a fixed number are the same. -/
theorem getElem? (h : AllAlike labels nodes qs qs') {i : Nat}
    (hfixed : ∀ e ∈ nodes[i]?, e.IsFixed R labels) : qs[i]? = qs'[i]? := by
  induction h generalizing i with
  | nil => rfl
  | cons hq _ ih =>
    rcases i with _ | i
    · exact congrArg some (hq.fixed (hfixed _ rfl))
    · exact ih hfixed

end AllAlike

end Node

/-! ## Draws -/

/-- Two samplers give related results, wherever they draw from. -/
abbrev Draw.Coupled (d : Draw R S α) (d' : Draw R S' β) (P : α → β → Prop) : Prop :=
  Ballpark.Coupled (fun _ _ => True) d d' P

namespace Draw.Coupled

variable {d : Draw R S α} {d' : Draw R S' β} {P : α → β → Prop}

omit [Scalar R] in
theorem ofExcept {e : Except (Fault R) α} {e' : Except (Fault R) β} (h : Paired P e e') :
    Coupled (Draw.ofExcept e : Draw R S α) (Draw.ofExcept e' : Draw R S' β) P :=
  fun _ _ _ a _ a' _ ha ha' => ⟨h a a' (congrArg Prod.fst ha) (congrArg Prod.fst ha'), trivial⟩

omit [Scalar R] in
/-- Faults may be told in another way. -/
theorem adapt (h : Coupled d d' P) (f : Fault R → Fault R) :
    Coupled (d.adapt f : Draw R S α) (d'.adapt f : Draw R S' β) P := by
  have hrun : ∀ {T γ : Type} (m : Draw R T γ) s a t, (m.adapt f : Draw R T γ).run s = (.ok a, t) →
      m.run s = (.ok a, t) := by
    intro T γ m s a t hm
    have hadapt : (m.adapt f : Draw R T γ).run s = ((m.run s).1.mapError f, (m.run s).2) := rfl
    rcases hcase : m.run s with ⟨e | b, u⟩
    · rw [hadapt, hcase] at hm
      cases hm
    · rw [hadapt, hcase] at hm
      cases hm
      rfl
  exact fun s s' hs a t a' t' hd hd' => h s s' hs a t a' t' (hrun d s a t hd) (hrun d' s' a' t' hd')

end Draw.Coupled

theorem UnitChoice.paired_apply (choice : UnitChoice R) (s s' : Sample R) :
    Paired Alike (choice.apply s) (choice.apply s') := by
  cases choice with
  | unit u => exact .ok ⟨rfl, rfl⟩
  | text t =>
    have hsample : (Value.sample s).isScalar = (Value.sample s').isScalar := rfl
    exact Alike.ofText hsample t

/-- Samplers that are told one unit give alike quantities, whatever they draw. -/
theorem SampleFrame.Gives.coupled {frame frame' : SampleFrame R} {d : Draw R S (Quantity R)}
    {d' : Draw R S' (Quantity R)} (h : frame.Gives d) (h' : frame'.Gives d')
    (hunit : frame.unit = frame'.unit) : d.Coupled d' Alike := by
  intro s s' _ q t q' t' hrun hrun'
  obtain ⟨particles, hq⟩ := (h s trivial).1.of_ok (congrArg Prod.fst hrun)
  obtain ⟨particles', hq'⟩ := (h' s' trivial).1.of_ok (congrArg Prod.fst hrun')
  rw [← hunit] at hq'
  exact ⟨frame.unit.paired_apply particles particles' q q' hq hq', trivial⟩

section

variable [RandomSource S R] [RandomSource S' R]

/-- The value of a constant is exact or uncertain by the kind of the constant, in the unit of its text. -/
theorem Constant.coupled_draw (constant : Constant R) (confidence : Written R) (n : SampleCount) :
    Draw.Coupled (constant.draw confidence (.ok n) : Draw R S _)
      (constant.draw confidence (.ok n) : Draw R S' _) Alike := by
  have h : ∀ text, Proper [text] (SampleFrame.mk (.ok n) (.text text) : SampleFrame R).count := fun _ =>
    .ok True.intro
  cases constant with
  | exact value unit => exact .ofExcept (Alike.ofText rfl unit)
  | plusMinus mean deviation unit =>
    exact (Sampler.plusMinus_gives (h unit) _ _).coupled (Sampler.plusMinus_gives (h unit) _ _) rfl
  | interval low high unit =>
    exact (Sampler.lognormal_gives (h unit) _ _ _).coupled (Sampler.lognormal_gives (h unit) _ _ _) rfl
  | oneOf values weights unit =>
    exact (Sampler.weighted_gives (h unit) _ _).coupled (Sampler.weighted_gives (h unit) _ _) rfl

/-- A constant is remembered in both sessions or drawn in both. -/
theorem Constant.coupled_remember (confidence : Written R) (n : SampleCount) (name : String)
    {drawn drawn' : Bindings (Quantity R)} (h : drawn.Related Alike drawn') :
    Draw.Coupled (Constant.remember confidence (.ok n) name drawn : Draw R S _)
      (Constant.remember confidence (.ok n) name drawn' : Draw R S' _)
      fun r r' => Option.Rel Alike r.1 r'.1 ∧ r.2.Related Alike r'.2 := by
  rw [Constant.remember, Constant.remember]
  split
  · exact .pure ⟨.none, h⟩
  · rename_i constant _
    rcases h.get? (Constant.ownName name) with ⟨hnone, hnone'⟩ | ⟨q, q', hq, hq', halike⟩
    · rw [hnone, hnone']
      exact Coupled.bind (constant.coupled_draw confidence n) fun q q' hq => .pure ⟨.some hq, h.set _ hq⟩
    · rw [hq, hq']
      exact .pure ⟨.some halike, h⟩

end

/-! ## Sessions -/

namespace Session

/-- Two sessions that hold alike quantities under the same names, and the same functions, whose bodies are
settled. A unit that is not among the labels has one definition in both. -/
structure Alike (labels : List String) (s : Session R S) (s' : Session R S') : Prop where
  settings : s.settings = s'.settings
  functions : s.functions = s'.functions
  bodies : ∀ name f, s.functions.get? name = some f →
    f.body.IsExpression ∧ f.body.Throughout (Node.Settled (Node.IsFixed R labels))
  fixedUnits : ∀ label, label ∉ labels → s.units.get? label = s'.units.get? label
  values : s.values.Related Quantity.Alike s'.values
  pins : s.pins.Related Quantity.Alike s'.pins
  units : s.units.Related Quantity.Alike s'.units
  constants : s.constants.Related Quantity.Alike s'.constants

/-- Frames that bind the same names to alike quantities. -/
abbrev FramesAlike (F F' : Frames R) : Prop :=
  List.Forall₂ (Bindings.Related Quantity.Alike) F F'

/-- Two evaluations keep sessions alike and give related results. -/
abbrev CoupledAlike (labels : List String) (m : Evaluation R S α) (m' : Evaluation R S' β)
    (P : α → β → Prop) : Prop :=
  Coupled (Alike labels) m m' P

namespace Alike

variable {labels : List String} {s : Session R S} {s' : Session R S'}

/-- New sessions that draw from different sources. -/
theorem ofSource (labels : List String) (settings : Settings R) (source : S) (source' : S') :
    Alike labels (.ofSource settings source) (.ofSource settings source') where
  settings := rfl
  functions := rfl
  bodies _ _ hf := nomatch hf
  fixedUnits _ _ := rfl
  values := .empty
  pins := .empty
  units := .empty
  constants := .empty

/-- The sources do not matter. -/
theorem withSource (h : s.Alike labels s') (source : S) (source' : S') :
    Alike labels { s with source } { s' with source := source' } :=
  ⟨h.settings, h.functions, h.bodies, h.fixedUnits, h.values, h.pins, h.units, h.constants⟩

theorem setVariable (h : s.Alike labels s') (name : String) {q q' : Quantity R} (hq : q.Alike q') :
    Alike labels (s.setVariable name q) (s'.setVariable name q') :=
  { h with values := h.values.set name hq }

/-- A unit that is not among the labels is given one definition. -/
theorem setUnit (h : s.Alike labels s') {name : String} {q q' : Quantity R} (hq : q.Alike q')
    (hname : name ∈ labels ∨ q = q') :
    Alike labels { s with units := s.units.set name q } { s' with units := s'.units.set name q' } :=
  { h with
    units := h.units.set name hq
    fixedUnits := fun label hlabel => by
      show (s.units.set name q).get? label = (s'.units.set name q').get? label
      rw [Bindings.get?_set, Bindings.get?_set]
      split
      · rename_i heq
        exact congrArg some (hname.resolve_left (heq ▸ hlabel))
      · exact h.fixedUnits label hlabel }

theorem setFunction (h : s.Alike labels s') {f : FunctionDefinition} (hbody : f.body.IsExpression)
    (hsettled : f.body.Throughout (Node.Settled (Node.IsFixed R labels))) :
    Alike labels { s with functions := s.functions.set f.name f }
      { s' with functions := s'.functions.set f.name f } :=
  { h with
    functions := by rw [h.functions]
    bodies := fun name g hg => by
      rw [Bindings.get?_set] at hg
      split at hg
      · cases hg
        exact ⟨hbody, hsettled⟩
      · exact h.bodies name g hg }

theorem setConstants (h : s.Alike labels s') {found found' : Bindings (Quantity R)}
    (hfound : found.Related Quantity.Alike found') :
    Alike labels { s with constants := found } { s' with constants := found' } :=
  { h with constants := hfound }

end Alike

/-! ## Steps of evaluation -/

variable {labels : List String} {P : α → β → Prop}

theorem coupled_ofExcept {e : Except (Fault R) α} {e' : Except (Fault R) β} (h : Paired P e e') :
    CoupledAlike labels (Evaluation.ofExcept e : Evaluation R S α)
      (Evaluation.ofExcept e' : Evaluation R S' β) P := by
  intro s s' hs a t a' t' hrun hrun'
  obtain ⟨ha, rfl⟩ := Evaluation.run_ofExcept_eq_ok.mp hrun
  obtain ⟨ha', rfl⟩ := Evaluation.run_ofExcept_eq_ok.mp hrun'
  exact ⟨h a a' ha ha', hs⟩

theorem coupled_withUnits {f : Bindings (Quantity R) → Except (Fault R) α}
    {f' : Bindings (Quantity R) → Except (Fault R) β}
    (h : ∀ (s : Session R S) (s' : Session R S'), s.Alike labels s' → Paired P (f s.units) (f' s'.units)) :
    CoupledAlike labels (withUnits f : Evaluation R S α) (withUnits f' : Evaluation R S' β) P := by
  intro s s' hs a t a' t' hrun hrun'
  obtain ⟨ha, rfl⟩ := run_withUnits_eq_ok.mp hrun
  obtain ⟨ha', rfl⟩ := run_withUnits_eq_ok.mp hrun'
  exact ⟨h s s' hs a a' ha ha', hs⟩

theorem coupled_draw {d : Draw R S α} {d' : Draw R S' β} (h : d.Coupled d' P) :
    CoupledAlike labels (Evaluation.draw d) (Evaluation.draw d') P := by
  intro s s' hs a t a' t' hrun hrun'
  rw [Evaluation.run_draw, Prod.mk.injEq] at hrun hrun'
  obtain ⟨ha, rfl⟩ := hrun
  obtain ⟨ha', rfl⟩ := hrun'
  exact ⟨(h _ _ trivial a _ a' _ (Prod.ext ha rfl) (Prod.ext ha' rfl)).1, hs.withSource _ _⟩

/-- A node must have a value in both sessions. -/
theorem coupled_required {Q : Quantity R → Quantity R → Prop} {node : Node}
    {m : Evaluation R S (Option (Quantity R))} {m' : Evaluation R S' (Option (Quantity R))}
    (h : CoupledAlike labels m m' (Option.Rel Q)) :
    CoupledAlike labels (required node m) (required node m') Q := by
  intro s s' hs q t q' t' hrun hrun'
  obtain ⟨hq, ht⟩ := h s s' hs _ t _ t' (run_required_eq_ok.mp hrun) (run_required_eq_ok.mp hrun')
  cases hq with
  | some hq => exact ⟨hq, ht⟩

theorem coupled_some {m : Evaluation R S α} {m' : Evaluation R S' β} (h : CoupledAlike labels m m' P) :
    CoupledAlike labels (some <$> m) (some <$> m') (Option.Rel P) := by
  rw [map_eq_pure_bind, map_eq_pure_bind]
  exact Coupled.bind h fun _ _ ha => .pure (.some ha)

/-- Samplers in one unit, which may have different parameters. -/
theorem coupled_sampleIn {unit unit' : CompoundUnit R} (hunit : unit = unit')
    {sampler : Written R → SampleFrame R → Draw R S (Quantity R)}
    {sampler' : Written R → SampleFrame R → Draw R S' (Quantity R)}
    (h : ∀ confidence count, Proper [] count → SampleFrame.Gives ⟨count, .unit unit⟩
      (sampler confidence ⟨count, .unit unit⟩))
    (h' : ∀ confidence count, Proper [] count → SampleFrame.Gives ⟨count, .unit unit'⟩
      (sampler' confidence ⟨count, .unit unit'⟩)) :
    CoupledAlike labels (sampleIn unit sampler) (sampleIn unit' sampler') Quantity.Alike := by
  refine Coupled.bind .get fun s s' _ => coupled_draw ?_
  exact (h _ _ (.ok True.intro)).coupled (h' _ _ (.ok True.intro)) (congrArg UnitChoice.unit hunit)

/-! ## Names -/

omit [Scalar R] in
theorem FramesAlike.lookup {F F' : Frames R} (h : FramesAlike F F') (name : String) :
    Option.Rel Quantity.Alike (F.findSome? (·.get? name)) (F'.findSome? (·.get? name)) := by
  induction h with
  | nil => exact .none
  | cons hframe _ ih =>
    rw [List.findSome?_cons, List.findSome?_cons]
    rcases hframe.get? name with ⟨hnone, hnone'⟩ | ⟨q, q', hq, hq', halike⟩
    · rw [hnone, hnone']
      exact ih
    · rw [hq, hq']
      exact .some halike

section

variable [RandomSource S R] [RandomSource S' R]

theorem coupled_constant (name : String) :
    CoupledAlike labels (constant? name : Evaluation R S _) (constant? name : Evaluation R S' _)
      (Option.Rel Quantity.Alike) := by
  refine Coupled.bind .get fun s s' hs => ?_
  rw [← hs.settings]
  refine Coupled.bind (coupled_draw (Constant.coupled_remember _ _ name hs.constants)) fun r r' hr => ?_
  exact Coupled.bind (Coupled.modify fun t t' ht => ht.setConstants hr.2) fun _ _ _ => .pure hr.1

theorem coupled_valueOf (name : String) :
    CoupledAlike labels (valueOf? name : Evaluation R S _) (valueOf? name : Evaluation R S' _)
      (Option.Rel Quantity.Alike) := by
  refine Coupled.bind .get fun s s' hs => ?_
  rcases hs.values.get? name with ⟨hnone, hnone'⟩ | ⟨q, q', hq, hq', halike⟩
  · rw [hnone, hnone']
    exact coupled_constant name
  · rw [hq, hq']
    exact .pure (.some halike)

theorem coupled_lookup {F F' : Frames R} (hF : FramesAlike F F') (name : String) :
    CoupledAlike labels (lookup? F name : Evaluation R S _) (lookup? F' name : Evaluation R S' _)
      (Option.Rel Quantity.Alike) := by
  have hname := hF.lookup name
  rw [lookup?, lookup?]
  generalize F.findSome? (·.get? name) = found at hname ⊢
  generalize F'.findSome? (·.get? name) = found' at hname ⊢
  cases hname with
  | none => exact coupled_valueOf name
  | some halike => exact .pure (.some halike)

/-- A name that has no value is read as a unit in both sessions. -/
theorem coupled_identifier {F F' : Frames R} (hF : FramesAlike F F') (name : String) :
    CoupledAlike labels (identifier F name : Evaluation R S _) (identifier F' name : Evaluation R S' _)
      Quantity.Alike := by
  refine Coupled.bind (coupled_lookup hF name) fun r r' hr => ?_
  cases hr with
  | some halike => exact .pure halike
  | none =>
    simp only
    split
    · exact Coupled.bind .get fun s s' _ => .throw _
    · exact coupled_ofExcept (Quantity.Alike.ofText rfl name)

/-! ## Calls -/

/-- Distributions are told no unit. -/
theorem coupled_distribution {d : Distribution} {confidence confidence' : Written R} {n n' : SampleCount}
    {arguments arguments' : List R} {sampler : Draw R S (Quantity R)} {sampler' : Draw R S' (Quantity R)}
    (h : d.sampler? confidence (.plain (.ok n)) arguments = some sampler)
    (h' : d.sampler? confidence' (.plain (.ok n')) arguments' = some sampler') :
    sampler.Coupled sampler' Quantity.Alike :=
  (UnitClass.distribution_gives (.ok True.intro) h).coupled
    (UnitClass.distribution_gives (.ok True.intro) h') rfl

/-- Only one builtin function takes an exponent. -/
theorem eq_pow_of_power {name : String} (h : MathFunction.ofName? name = some .power) : name = "pow" := by
  have hnames : ∀ e ∈ MathFunction.table, e.2 = .power → e.1 = "pow" := by decide
  obtain ⟨before, after, htable, -⟩ := List.lookup_eq_some_iff.mp h
  exact hnames (name, .power) (htable ▸ List.mem_append_right before List.mem_cons_self) rfl

theorem coupled_callBuiltin {name : String} {qs qs' : List (Quantity R)}
    (hqs : List.Forall₂ Quantity.Alike qs qs') (hexponent : name = "pow" → qs[1]? = qs'[1]?) :
    CoupledAlike labels (callBuiltin name qs : Evaluation R S _) (callBuiltin name qs' : Evaluation R S' _)
      Quantity.Alike := by
  refine Coupled.bind .get fun s s' hs => ?_
  split
  · exact .throw _
  rename_i function hfunction
  split
  · exact .throw _
  rename_i call hcall
  split
  · exact .throw_right _
  rename_i call' hcall'
  -- the draw is all that is left, and the name of the call only goes into its fault
  refine coupled_draw (Draw.Coupled.adapt ?_ _)
  rw [Builtin.ofName?] at hfunction
  split at hfunction
  · -- two samplers of one distribution, told no unit, go together whatever their parameters
    cases hfunction
    exact coupled_distribution hcall hcall'
  · -- an operation goes particle by particle; only a power reads an argument, and it has the same one
    obtain ⟨f, hname, rfl⟩ := Option.map_eq_some_iff.mp hfunction
    obtain ⟨e, he, rfl⟩ := Option.map_eq_some_iff.mp hcall
    obtain ⟨e', he', rfl⟩ := Option.map_eq_some_iff.mp hcall'
    refine .ofExcept (f.paired_call hqs (fun hf => hexponent ?_) he he')
    exact eq_pow_of_power (hf ▸ hname)

end

end Session

end Ballpark
