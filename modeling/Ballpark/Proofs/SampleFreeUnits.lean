import Ballpark.Proofs.AlikeRuns
import Ballpark.Proofs.ParticleWise
import Ballpark.Proofs.Pinning
import Ballpark.Proofs.RangeScale
import Ballpark.Proofs.NodeEquality

/-!
# Units without samples

The units of a program's values do not depend on what is drawn: run in two new sessions with different
random sources, every statement has values in one unit, both exact or both uncertain, if all statements
succeed in both (`Session.units_independent_of_samples`). Below one call this goes by induction on the
tree, for calls by induction on how many may still be opened, and for a run statement by statement.

The exponents in the program must be fixed: number literals, or arithmetic on such, in whose units no label
stands that may be drawn. A literal in a unit of the program's own stands for as many of what the unit has
been defined as. If that has been drawn, then so is the unit of a power (`Session.exponent_in_drawn_unit`).
-/

namespace Ballpark

open Quantity

variable {R S S' : Type} [Scalar R] [RandomSource S R] [RandomSource S' R]

namespace Session

variable {labels : List String}

/-! ## Expressions -/

/-- Settled expressions have alike values, given how the bodies of functions are evaluated. -/
def BodiesAlike (labels : List String) (body : TreeEvaluation R S) (body' : TreeEvaluation R S') : Prop :=
  ∀ {n : Node} {F F' : Frames R}, n.IsExpression → n.Throughout (Node.Settled (Node.IsFixed R labels)) →
    FramesAlike F F' → CoupledAlike labels (body F n) (body' F' n) (Option.Rel Quantity.Alike)

section

variable {body : TreeEvaluation R S} {body' : TreeEvaluation R S'} {F F' : Frames R}

theorem coupled_evaluateAll {nodes : List Node}
    (h : ∀ n ∈ nodes, CoupledAlike labels (evaluateNode body F n) (evaluateNode body' F' n)
      (Option.Rel (n.ValuesAlike labels))) :
    CoupledAlike labels (evaluateAll body F nodes) (evaluateAll body' F' nodes)
      (Node.AllAlike labels nodes) := by
  induction nodes with
  | nil =>
    rw [evaluateAll, evaluateAll]
    exact .pure .nil
  | cons n rest ih =>
    obtain ⟨hn, hrest⟩ := List.forall_mem_cons.mp h
    rw [evaluateAll, evaluateAll]
    refine Coupled.bind (coupled_required hn) fun q q' hq => ?_
    exact Coupled.bind (ih hrest) fun qs qs' hqs => .pure (.cons hq hqs)

/-- A call in both sessions: of a builtin function, or of one function of the program. -/
theorem coupled_callFunction (hbody : BodiesAlike labels body body') (hF : FramesAlike F F') {name : String}
    {qs qs' : List (Quantity R)} (hqs : List.Forall₂ Quantity.Alike qs qs')
    (hexponent : name = "pow" → qs[1]? = qs'[1]?) :
    CoupledAlike labels (callFunction body F name qs) (callFunction body' F' name qs') Quantity.Alike := by
  refine Coupled.bind .get fun s s' hs => ?_
  -- the sessions have one set of functions, so they call the same body
  rw [← hs.functions]
  split
  · rename_i function hfunction
    obtain ⟨hexpression, hsettled⟩ := hs.bodies name function hfunction
    have hframe : Paired (Bindings.Related Quantity.Alike) (callFrame function qs)
        (callFrame function qs') := by
      rw [callFrame, callFrame, hqs.length_eq]
      exact .ite (.ok (.ofList_zip _ hqs)) (.error _)
    refine Coupled.bind (coupled_ofExcept hframe) fun frame frame' hframes => ?_
    exact coupled_required (hbody hexpression hsettled (.cons hframes hF))
  · exact coupled_callBuiltin hqs hexponent

omit [RandomSource S R] [RandomSource S' R] in
/-- Of a node that is no fixed number the values need only be alike. -/
theorem coupled_values {n : Node} (hn : ¬n.IsFixed R labels) {m : Evaluation R S (Quantity R)}
    {m' : Evaluation R S' (Quantity R)} (h : CoupledAlike labels m m' Quantity.Alike) :
    CoupledAlike labels (some <$> m) (some <$> m') (Option.Rel (n.ValuesAlike labels)) :=
  coupled_some (h.mono fun _ _ halike => ⟨halike, fun hfixed => absurd hfixed hn⟩)

omit [RandomSource S R] [RandomSource S' R] in
/-- A literal whose number is fixed has one value in both sessions. -/
theorem coupled_number (x : Decimal) (unit : Option String) :
    CoupledAlike labels (withUnits (literal · (Scalar.ofDecimal x) unit) : Evaluation R S _)
      (withUnits (literal · (Scalar.ofDecimal x) unit) : Evaluation R S' _)
      ((Node.number x unit).ValuesAlike labels) := by
  refine coupled_withUnits fun s s' hs q q' hq hq' => ?_
  refine ⟨paired_literal hs.units _ _ q q' hq hq', fun hfixed => ?_⟩
  cases hfixed with
  | literal hunit =>
    have hsame : literal s.units (Scalar.ofDecimal x) unit = literal s'.units (Scalar.ofDecimal x) unit := by
      refine literal_congr (fun text htext label hmentions => ?_) _
      exact hs.fixedUnits label (hunit text htext label hmentions)
    exact Except.ok.inj (hq.symm.trans (hsame.trans hq'))

theorem coupled_sigFig (text : String) (unit : Option String) :
    CoupledAlike labels (sigFig text unit : Evaluation R S _) (sigFig text unit : Evaluation R S' _)
      Quantity.Alike := by
  refine Coupled.bind (coupled_ofExcept Paired.any) fun b b' _ => ?_
  refine Coupled.bind (coupled_sampleIn rfl (fun _ _ h => Sampler.uniform_gives h _ _)
    fun _ _ h => Sampler.uniform_gives h _ _) fun q q' hq => ?_
  exact coupled_withUnits fun s s' hs => paired_inUnit hs.units hq unit

omit [RandomSource S R] [RandomSource S' R] in
/-- Samplers that are told the unit of some bounds. -/
theorem coupled_bounded {n : Node} (hn : ¬n.IsFixed R labels)
    {bounds bounds' : Bindings (Quantity R) → Except (Fault R) (Bounds R)}
    {sampler : Bounds R → Written R → SampleFrame R → Draw R S (Quantity R)}
    {sampler' : Bounds R → Written R → SampleFrame R → Draw R S' (Quantity R)}
    (hbounds : ∀ (s : Session R S) (s' : Session R S'), s.Alike labels s' →
      PairedBounds (bounds s.units) (bounds' s'.units))
    (h : ∀ b confidence count, Proper [] count →
      SampleFrame.Gives ⟨count, .unit b.unit⟩ (sampler b confidence ⟨count, .unit b.unit⟩))
    (h' : ∀ b confidence count, Proper [] count →
      SampleFrame.Gives ⟨count, .unit b.unit⟩ (sampler' b confidence ⟨count, .unit b.unit⟩)) :
    CoupledAlike labels (withUnits bounds >>= fun b => some <$> sampleIn b.unit (sampler b))
      (withUnits bounds' >>= fun b => some <$> sampleIn b.unit (sampler' b))
      (Option.Rel (n.ValuesAlike labels)) :=
  Coupled.bind (coupled_withUnits hbounds) fun b b' hb =>
    coupled_values hn (coupled_sampleIn hb (h b) (h' b'))

/-- An operation with alike operands has alike values. -/
theorem coupled_step {n : Node} (hn : n.isStrict = true) (hcall : n.isCall = false)
    (hsettled : n.Settled (Node.IsFixed R labels)) (hF : FramesAlike F F') {qs qs' : List (Quantity R)}
    (hqs : Node.AllAlike labels n.operands qs qs') :
    CoupledAlike labels (step F n qs : Evaluation R S _) (step F' n qs' : Evaluation R S' _)
      (Option.Rel (n.ValuesAlike labels)) := by
  cases n with
  | call => cases hcall
  | ifExpression | letBinding | assignment | unitDefinition | functionDefinition | program | foreign =>
    cases hn
  | number x unit => exact coupled_some (coupled_number x unit)
  | sigFig text unit => exact coupled_values (by nofun) (coupled_sigFig text unit)
  | identifier name => exact coupled_values (by nofun) (coupled_identifier hF name)
  | unit text =>
    exact coupled_values (by nofun) (coupled_withUnits fun s s' hs => paired_unitQuantity hs.units text)
  -- only an exponent is read as a number, and a settled one is the same in both sessions
  | binary op left right =>
    obtain _ | ⟨hx, _ | ⟨hy, _ | _⟩⟩ := hqs
    have hexponent : op = .power → _ = _ := fun hop => by
      subst hop
      exact hy.fixed (hsettled.exponents _ (List.mem_singleton_self _))
    refine coupled_some (coupled_ofExcept fun r r' hr hr' => ?_)
    refine ⟨paired_binary op hx.alike hy.alike hexponent r r' hr hr', fun hfixed => ?_⟩
    cases hfixed with
    | binary hleft hright =>
      cases hx.fixed hleft
      cases hy.fixed hright
      exact Except.ok.inj (hr.symm.trans hr')
  | unary op operand =>
    obtain _ | ⟨hx, _ | _⟩ := hqs
    refine coupled_some (coupled_ofExcept fun r r' hr hr' => ?_)
    -- a negative of fixed operands is fixed
    refine ⟨paired_unary op hx.alike r r' hr hr', fun hfixed => ?_⟩
    cases hfixed with
    | unary h =>
      cases hx.fixed h
      exact Except.ok.inj (hr.symm.trans hr')
  | range left right unit =>
    obtain _ | ⟨hx, _ | ⟨hy, _ | _⟩⟩ := hqs
    exact coupled_bounded (by nofun)
      (fun _ _ hs => paired_strictBounds hs.units right hx.alike hy.alike unit)
      (fun _ _ _ h => Sampler.interval_gives h _ _ _) fun _ _ _ h => Sampler.interval_gives h _ _ _
  | uniformRange left right unit =>
    obtain _ | ⟨hx, _ | ⟨hy, _ | _⟩⟩ := hqs
    exact coupled_bounded (by nofun)
      (fun _ _ hs => paired_looseBounds hs.units hx.alike hy.alike true unit)
      (fun _ _ _ h => Sampler.uniform_gives h _ _) fun _ _ _ h => Sampler.uniform_gives h _ _
  | normalRange mean spread unit =>
    obtain _ | ⟨hx, _ | ⟨hy, _ | _⟩⟩ := hqs
    exact coupled_bounded (by nofun)
      (fun _ _ hs => paired_looseBounds hs.units hx.alike hy.alike false unit)
      (fun _ _ _ h => Sampler.normal_gives h _ _ _) fun _ _ _ h => Sampler.normal_gives h _ _ _
  | betaOf successes total =>
    obtain _ | ⟨hx, _ | ⟨hy, _ | _⟩⟩ := hqs
    exact coupled_values (by nofun) (coupled_sampleIn rfl (fun _ _ h => Sampler.outOf_gives h _ _)
      fun _ _ h => Sampler.outOf_gives h _ _)
  | betaAgainst pro contra =>
    obtain _ | ⟨hx, _ | ⟨hy, _ | _⟩⟩ := hqs
    exact coupled_values (by nofun) (coupled_sampleIn rfl (fun _ _ h => Sampler.against_gives h _ _)
      fun _ _ h => Sampler.against_gives h _ _)
  | weightedSet values weights unit =>
    refine Coupled.bind (coupled_sampleIn rfl (fun _ _ h => Sampler.weighted_gives h _ _)
      fun _ _ h => Sampler.weighted_gives h _ _) fun q q' hq => coupled_values (by nofun) ?_
    exact coupled_withUnits fun s s' hs => paired_inUnit hs.units hq unit
  | percentTwiddle x =>
    exact coupled_values (by nofun) (coupled_sampleIn rfl (fun _ _ h => Sampler.percent_gives h _ _)
      fun _ _ h => Sampler.percent_gives h _ _)
  | decibelTwiddle x =>
    exact coupled_values (by nofun) (coupled_sampleIn rfl (fun _ _ h => Sampler.decibels_gives h _ _)
      fun _ _ h => Sampler.decibels_gives h _ _)
  | conversion expression target =>
    obtain _ | ⟨hx, _ | _⟩ := hqs
    exact coupled_values (by nofun)
      (coupled_withUnits fun s s' hs => paired_convertTo hs.units hx.alike target)

theorem coupled_perform (hbody : BodiesAlike labels body body') {n : Node} (hn : n.isStrict = true)
    (hsettled : n.Settled (Node.IsFixed R labels)) (hF : FramesAlike F F') {qs qs' : List (Quantity R)}
    (hqs : Node.AllAlike labels n.operands qs qs') :
    CoupledAlike labels (perform body F n qs) (perform body' F' n qs')
      (Option.Rel (n.ValuesAlike labels)) := by
  rcases hcall : n.isCall with _ | _
  · rw [perform_of_not_call _ _ hcall, perform_of_not_call _ _ hcall]
    exact coupled_step hn hcall hsettled hF hqs
  cases n with
  | call name arguments =>
    refine coupled_values (by nofun) (coupled_callFunction hbody hF hqs.forall₂ fun hname => ?_)
    refine hqs.getElem? fun e he => hsettled.exponents e ?_
    rw [Node.exponents, if_pos hname, Option.mem_toList]
    exact he
  | _ => cases hcall

theorem coupled_evaluateNode (hbody : BodiesAlike labels body body') {n : Node} (hn : n.IsExpression)
    (hsettled : n.Throughout (Node.Settled (Node.IsFixed R labels))) (hF : FramesAlike F F') :
    CoupledAlike labels (evaluateNode body F n) (evaluateNode body' F' n)
      (Option.Rel (n.ValuesAlike labels)) := by
  induction hn generalizing F F' with
  | @operation n hn _ ih =>
    have hparts := Node.parts_of_isOperation hn
    have hstrict : n.isStrict = true := by
      -- of the operations only a choice is evaluated in part
      rcases Node.isStrict_or_of_isOperation hn with h | ⟨condition, yes, no, rfl⟩
      · exact h
      · exact nomatch hsettled.here.noChoice
    rw [evaluateNode_operation _ _ hstrict, evaluateNode_operation _ _ hstrict]
    refine Coupled.bind (coupled_evaluateAll fun m hm => ?_) fun qs qs' hqs => ?_
    · exact ih m hm (hsettled.part (hparts ▸ hm)) hF
    · exact coupled_perform hbody hstrict hsettled.here hF hqs
  | @letBinding name bound inner _ _ ihbound ihinner =>
    have hbound := hsettled.part (m := bound) List.mem_cons_self
    have hinner := hsettled.part (m := inner) (List.mem_cons_of_mem _ List.mem_cons_self)
    rw [evaluateNode, evaluateNode]
    refine Coupled.bind (coupled_required (ihbound hbound hF)) fun q q' hq => ?_
    have hframes : FramesAlike (.ofList [(name, q)] :: F) (.ofList [(name, q')] :: F') :=
      .cons (.cons ⟨rfl, hq.alike⟩ .nil) hF
    refine coupled_some ((coupled_required (ihinner hinner hframes)).mono fun p p' hp => ?_)
    exact ⟨hp.alike, fun h => nomatch h⟩

theorem coupled_evaluateWithin (limit : Nat) :
    BodiesAlike labels (evaluateWithin limit : TreeEvaluation R S)
      (evaluateWithin limit : TreeEvaluation R S') := by
  induction limit with
  | zero => exact fun _ _ _ => .throw _
  | succ limit ih =>
    intro n F F' hn hsettled hF
    refine (coupled_evaluateNode ih hn hsettled hF).mono fun r r' hr => ?_
    cases hr with
    | none => exact .none
    | some h => exact .some h.alike

end

/-! ## Statements -/

section

omit [RandomSource S R] [RandomSource S' R]

theorem coupled_assign (name : String) {q q' : Quantity R} (hq : q.Alike q') :
    CoupledAlike labels (assign name q : Evaluation R S _) (assign name q' : Evaluation R S' _)
      Quantity.Alike := by
  refine Coupled.bind .get fun s s' hs => ?_
  have hvalue : ((s.pins.get? name).getD q).Alike ((s'.pins.get? name).getD q') := by
    rcases hs.pins.get? name with ⟨hnone, hnone'⟩ | ⟨pin, pin', hpin, hpin', halike⟩
    · rw [hnone, hnone']
      exact hq
    · rw [hpin, hpin']
      exact halike
  exact Coupled.bind (Coupled.modify fun t t' ht => ht.setVariable name hvalue) fun _ _ _ => .pure hvalue

theorem coupled_defineUnit {name : String} (count : R) {q q' : Quantity R} (hq : q.Alike q')
    (hname : name ∈ labels ∨ q = q') :
    CoupledAlike labels (defineUnit name count q : Evaluation R S _)
      (defineUnit name count q' : Evaluation R S' _) Quantity.Alike := by
  have hunit : Paired (fun u u' => u.Alike u' ∧ (name ∈ labels ∨ u = u')) (unitOf name count q)
      (unitOf name count q') := by
    refine fun u u' hu hu' => ⟨paired_unitOf name count hq u u' hu hu', hname.imp_right ?_⟩
    rintro rfl
    exact Except.ok.inj (hu.symm.trans hu')
  refine Coupled.bind (coupled_ofExcept hunit) fun u u' hu => ?_
  exact Coupled.bind (Coupled.modify fun t t' ht => ht.setUnit hu.1 hu.2) fun _ _ _ => .pure hu.1

theorem coupled_defineFunction {f : FunctionDefinition} (hbody : f.body.IsExpression)
    (hsettled : f.body.Throughout (Node.Settled (Node.IsFixed R labels))) :
    CoupledAlike labels (defineFunction f : Evaluation R S _) (defineFunction f : Evaluation R S' _)
      fun _ _ => True :=
  Coupled.modify fun _ _ hs => hs.setFunction hbody hsettled

end

/-- A settled statement, which may define a unit among the labels, or any unit by a fixed definition. -/
theorem coupled_statement {n : Node} (hn : n.IsStatement)
    (hsettled : n.Throughout (Node.Settled (Node.IsFixed R labels))) (hdefines : n.DefinesFixed R labels) :
    CoupledAlike labels (evaluateTree n : Evaluation R S _) (evaluateTree n : Evaluation R S' _)
      (Option.Rel Quantity.Alike) := by
  have hexpression : BodiesAlike labels (evaluateNode (evaluateWithin callLimit) : TreeEvaluation R S)
      (evaluateNode (evaluateWithin callLimit) : TreeEvaluation R S') :=
    coupled_evaluateWithin (callLimit + 1)
  rw [evaluateTree, evaluateTree, evaluateWithin, evaluateWithin]
  cases hn with
  -- an expression stores nothing
  | expression hn => exact hexpression hn hsettled .nil
  | assignment hvalue =>
    rw [evaluateNode, evaluateNode]
    refine Coupled.bind (coupled_required ?_) fun q q' hq => coupled_some (coupled_assign _ hq)
    exact hexpression hvalue (hsettled.part List.mem_cons_self) .nil
  | unitDefinition hvalue =>
    rw [evaluateNode, evaluateNode]
    split
    · exact .throw _
    · -- a definition by a fixed quantity keeps the units alike, and so does any definition of a label
      refine Coupled.bind (coupled_required (Q := Node.ValuesAlike labels _) ?_) fun q q' hq =>
        coupled_some (coupled_defineUnit _ hq.alike (hdefines.imp_right hq.fixed))
      exact coupled_evaluateNode (coupled_evaluateWithin callLimit) hvalue
        (hsettled.part List.mem_cons_self) .nil
  | functionDefinition hbody =>
    rw [evaluateNode, evaluateNode]
    refine Coupled.bind (coupled_defineFunction hbody ?_) fun _ _ _ => .pure .none
    exact hsettled.part List.mem_cons_self

/-! ## Runs -/

/-- A statement that has not failed has the value that its evaluation gives. -/
theorem run_evaluateTree_of_runStatement {n : Node} {s t : Session R S} {value : Option (Quantity R)}
    (h : (runStatement n).run s = (.ok (.ok value), t)) : (evaluateTree n).run s = (.ok value, t) := by
  rcases run_runStatement n s with ⟨o, ho, hrun⟩ | ⟨f, -, -, hrun⟩
  · rw [hrun, Prod.mk.injEq, Except.ok.injEq] at h
    obtain ⟨rfl, rfl⟩ := h
    refine Prod.ext ?_ rfl
    show outcome n s = .ok value
    rcases hvalue : outcome n s with f | found
    · rw [hvalue] at ho
      obtain ⟨shown, -, hshown⟩ := Option.map_eq_some_iff.mp ho
      cases hshown
    · rw [hvalue] at ho
      exact Option.some.inj ho
  · rw [hrun] at h
    cases h

/-- The results of statements that succeed in both sessions: induction on the statements. -/
theorem results_alike {statements : List Node}
    (h : ∀ n ∈ statements, CoupledAlike labels (evaluateTree n : Evaluation R S _)
      (evaluateTree n : Evaluation R S' _) (Option.Rel Quantity.Alike))
    {s : Session R S} {s' : Session R S'} (hs : s.Alike labels s') {index : Nat}
    {results results' : List (StatementResult R)} {t : Session R S} {t' : Session R S'}
    (hrun : (runStatements index statements).run s = (.ok results, t))
    (hrun' : (runStatements index statements).run s' = (.ok results', t'))
    (hok : ∀ r ∈ results, r.hasFailed = false) (hok' : ∀ r ∈ results', r.hasFailed = false) :
    List.Forall₂ (fun r r' => Option.Rel Quantity.Alike r.value? r'.value?) results results' := by
  induction statements generalizing s s' index results results' with
  -- the first statement leaves the sessions alike, so the induction goes on from there
  | nil =>
    rw [runStatements] at hrun hrun'
    cases hrun
    cases hrun'
    exact .nil
  | cons n rest ih =>
    obtain ⟨hn, hrest⟩ := List.forall_mem_cons.mp h
    rw [runStatements] at hrun hrun'
    obtain ⟨o, u, hfirst, hrun⟩ := Evaluation.run_bind_eq_ok.mp hrun
    obtain ⟨later, v, hlater, hpure⟩ := Evaluation.run_bind_eq_ok.mp hrun
    cases hpure
    obtain ⟨o', u', hfirst', hrun'⟩ := Evaluation.run_bind_eq_ok.mp hrun'
    obtain ⟨later', v', hlater', hpure'⟩ := Evaluation.run_bind_eq_ok.mp hrun'
    cases hpure'
    obtain ⟨ho, hlaterok⟩ := List.forall_mem_cons.mp hok
    obtain ⟨ho', hlaterok'⟩ := List.forall_mem_cons.mp hok'
    rcases o with f | value
    · cases ho
    rcases o' with f | value'
    · cases ho'
    obtain ⟨hvalue, hu⟩ := hn s s' hs value u value' u' (run_evaluateTree_of_runStatement hfirst)
      (run_evaluateTree_of_runStatement hfirst')
    exact .cons hvalue (ih hrest hu hlater hlater' hlaterok hlaterok')

/-- **Units do not depend on the samples.** Let a program choose nothing, and let its exponents be number
literals, opposites of such or other arithmetic on them, in whose units none of some labels stands. These are
the labels of units that may be drawn: all other units that the program defines are defined in this way too.
If all statements succeed in two new sessions with the same settings, whatever the sessions draw from, then
each statement has two values in one unit that are both exact or both uncertain, or has no value in either. -/
theorem units_independent_of_samples {text : String} {statements : List Node}
    (hread : Node.statementsOfText text = .ok statements)
    (hsettled : ∀ n ∈ statements, n.Throughout (Node.Settled (Node.IsFixed R labels)))
    (hdefines : ∀ n ∈ statements, n.DefinesFixed R labels) (settings : Settings R) (source : S)
    (source' : S') {results results' : List (StatementResult R)} {t : Session R S} {t' : Session R S'}
    (hrun : (run text).run (.ofSource settings source) = (.ok results, t))
    (hrun' : (run text).run (.ofSource settings source') = (.ok results', t'))
    (hok : ∀ r ∈ results, r.hasFailed = false) (hok' : ∀ r ∈ results', r.hasFailed = false) :
    List.Forall₂ (fun r r' => Option.Rel Quantity.Alike r.value? r'.value?) results results' := by
  have hstatements := Node.isStatement_of_read hread
  rw [run_of_parsed hread] at hrun hrun'
  have hsessions := Alike.ofSource labels settings source source'
  refine results_alike (fun n hn => ?_) hsessions hrun hrun' hok hok'
  exact coupled_statement (hstatements n hn) (hsettled n hn) (hdefines n hn)

/-! ## Powers of a length -/

/-- A run shows the values of statements that succeed. -/
theorem run_runStatements_cons {n : Node} {rest : List Node} {index : Nat} {s t u : Session R S}
    {value : Option (Quantity R)} {results : List (StatementResult R)}
    (h : (evaluateTree n).run s = (.ok value, t))
    (hrest : (runStatements (index + 1) rest).run t = (.ok results, u)) :
    (runStatements index (n :: rest)).run s = (.ok (⟨index, n, .ok value⟩ :: results), u) := by
  have hfirst : (runStatement n).run s = (.ok (.ok value), t) := by
    rw [runStatement, Evaluation.run_tryCatch_of_ok (Evaluation.run_map_eq_ok.mpr ⟨_, h, rfl⟩)]
  rw [runStatements, Evaluation.run_bind_of_ok hfirst, Evaluation.run_bind_of_ok hrest]
  rfl

/-- `(5 m) ^ exponent` -/
def lengthPower (exponent : Node) : Node :=
  .binary .power (.number (.ofNat 5) (some "m")) exponent

/-- A new session with one particle in which every uniform number is the same. -/
noncomputable def single (u : ℝ) : Session ℝ (ConstantSource ℝ) :=
  .ofSource ⟨⟨1, one_pos⟩, .decimal 0.9, none⟩ ⟨u, 0⟩

/-- A length raised to a number has the dimension raised to this number. -/
theorem run_lengthPower {exponent : Node} {k : Rat} {s : Session ℝ (ConstantSource ℝ)}
    (hmetre : s.units.get? "meter" = none)
    (hexponent : (required exponent (evaluateNode (evaluateWithin callLimit) [] exponent)).run s =
      (.ok (.plain (k : ℝ)), s)) :
    ∃ x w, (evaluateTree (lengthPower exponent)).run s = (.ok (some ⟨.scalar x, w⟩), s) ∧
      w.dimension = metres.dimension.pow (Exponent.snap k) := by
  have hmetres : ScaleFree s.units "m" metres :=
    ⟨scaleFree_metres.read, fun t ht => List.mem_singleton.mp ht ▸ hmetre⟩
  have hlength : (required (.number (.ofNat 5) (some "m")) (evaluateNode (evaluateWithin callLimit) []
      (.number (.ofNat 5) (some "m")))).run s = (.ok ⟨.scalar ((5 : Nat) : ℝ), metres⟩, s) := by
    rw [run_required_eq_ok, evaluateNode, Evaluation.run_some_eq_ok, run_withUnits,
      Scalar.ofDecimal_ofNat, hmetres.literal_eq]
  have hsound := hmetres.sound (.scalar ((5 : Nat) : ℝ))
  obtain ⟨w, hw, hmakes⟩ := CompoundUnit.pow_spec hsound.known hsound.canonical k
  have hpower : binary .power ⟨.scalar ((5 : Nat) : ℝ), metres⟩ (.plain (k : ℝ)) =
      .ok ⟨.scalar (((5 : Nat) : ℝ) ^ (k : ℝ)), w⟩ := by
    rw [binary_power, Quantity.pow, hw]
    rfl
  refine ⟨((5 : Nat) : ℝ) ^ (k : ℝ), w, ?_, hmakes.dimension⟩
  rw [lengthPower, evaluateTree, evaluateWithin, evaluateNode, Evaluation.run_bind_of_ok hlength,
    Evaluation.run_bind_of_ok hexponent, Evaluation.run_some_eq_ok, Evaluation.run_ofExcept, hpower]

/-! ## A unit that stands for a number -/

/-- The units of a session in which `'k` is a plain number. -/
noncomputable def kUnits (k : ℝ) : Bindings (Quantity ℝ) :=
  ⟨[("'k", .plain k)]⟩

/-- One `'k` is what `'k` has been defined as. -/
theorem literal_k (k : ℝ) : literal (kUnits k) 1 (some "'k") = .ok (.plain k) := by
  have hlabel : CompoundUnit.IsLabel "'k" "k" :=
    ⟨by decide, .label (by decide) (List.all_eq_true.mp (by decide))⟩
  let t : UnitTerm ℝ := ⟨"'k", (UnitMeaning.label (UnitName.labelName "'k")).toUnit, 1⟩
  have hterms : (CompoundUnit.ofLabel "'k").terms = [t] := rfl
  have hget : (kUnits k).get? t.unit.base = some (.plain k) := by
    have hbase : t.unit.base = "'k" := by decide
    rw [hbase]
    rfl
  have hfilter : [t].filter (fun t => !(kUnits k).contains t.unit.base) = [] := by
    simp [Bindings.contains, hget]
  have hsubstitute : substitute (kUnits k) ⟨.scalar 1, ⟨[]⟩⟩ t =
      .ok ⟨.scalar (1 * k ^ ((1 : Rat) : ℝ) * ((1 : Nat) : ℝ)), .one⟩ := by
    rw [substitute, hget]
    simp only [Checked.ofRat_real]
    rfl
  have hunit : unitQuantity (kUnits k) "'k" =
      .ok ⟨.scalar (1 * k ^ ((1 : Rat) : ℝ) * ((1 : Nat) : ℝ)), .one⟩ := by
    rw [unitQuantity, CompoundUnit.ofText_label hlabel]
    simp only [bind, Except.bind, hterms, hfilter]
    rw [List.foldlM_cons, hsubstitute]
    rfl
  rw [RangeForm.literal_withUnit hunit]
  simp [Quantity.map, Value.map, Quantity.plain]

/-- `1 'k` -/
def oneK : Node :=
  .number (.ofNat 1) (some "'k")

theorem run_oneK {s : Session ℝ (ConstantSource ℝ)} {k : ℝ} (hunits : s.units = kUnits k) :
    (required oneK (evaluateNode (evaluateWithin callLimit) [] oneK)).run s = (.ok (.plain k), s) := by
  rw [run_required_eq_ok, oneK, evaluateNode, Evaluation.run_some_eq_ok, run_withUnits,
    Scalar.ofDecimal_ofNat, Nat.cast_one, hunits, literal_k]

/-- `1 'k = definition` -/
def defineK (definition : Node) : Node :=
  .unitDefinition "'k" (.ofNat 1) definition

theorem run_defineK {definition : Node} {s t : Session ℝ (ConstantSource ℝ)} {k : ℝ}
    (h : (required definition (evaluateNode (evaluateWithin callLimit) [] definition)).run s =
      (.ok (.plain k), t)) (hunits : t.units = .empty) :
    (evaluateTree (defineK definition)).run s =
      (.ok (some (.plain k)), { t with units := kUnits k }) := by
  have hcount : (Scalar.ofDecimal (.ofNat 1) : ℝ) = 1 := (Scalar.ofDecimal_ofNat 1).trans Nat.cast_one
  have hone : unitOf "'k" (1 : ℝ) (.plain k) = .ok (.plain k) := by
    rw [unitOf, Scalar.isZero_real, Scalar.eq_real, Scalar.ofNat_real]
    simp
  have hdefine : (defineUnit "'k" (1 : ℝ) (.plain k)).run t =
      (.ok (.plain k), { t with units := t.units.set "'k" (.plain k) }) := by
    rw [defineUnit, hone]
    rfl
  rw [hunits] at hdefine
  rw [defineK, evaluateTree, evaluateWithin, evaluateNode]
  simp only [hcount, Scalar.isZero_real, one_ne_zero, decide_false, Bool.false_eq_true, if_false]
  rw [Evaluation.run_bind_of_ok h, Evaluation.run_some_eq_ok]
  exact hdefine

/-! ## A range and a power -/

/-- `x = 0 .. 1`, `1 'k = 2` and `(5 m) ^ 1 'k` -/
def rangeAndPower : List Node :=
  [.assignment "x" unitRange, defineK (.number (.ofNat 2) none), lengthPower oneK]

theorem statementsOfText_rangeAndPower :
    Node.statementsOfText "x = 0 .. 1\n1 'k = 2\n(5 m) ^ 1 'k" = .ok rangeAndPower :=
  Node.statementsOfText_of_toOption (by decide +kernel)

theorem run_rangeAndPower (u : ℝ) : ∃ q r p t, (run "x = 0 .. 1\n1 'k = 2\n(5 m) ^ 1 'k").run (single u) =
    (.ok [⟨0, .assignment "x" unitRange, .ok (some q)⟩,
      ⟨1, defineK (.number (.ofNat 2) none), .ok (some r)⟩, ⟨2, lengthPower oneK, .ok (some p)⟩], t) := by
  let q : Quantity ℝ := ⟨.sample ⟨u, []⟩, .one⟩
  let s := (single u).setVariable "x" q
  have hrange : (evaluateNode (evaluateWithin callLimit) [] unitRange).run (single u) =
      (.ok (some q), single u) := run_unitRange (single u)
  have hx : (evaluateTree (.assignment "x" unitRange)).run (single u) = (.ok (some q), s) :=
    run_assignment "x" hrange
  have hk := run_defineK (run_ofNat (evaluateWithin callLimit) [] 2 s) rfl
  have htwo : ((2 : Rat) : ℝ) = ((2 : Nat) : ℝ) := by norm_num
  have hone : (required oneK (evaluateNode (evaluateWithin callLimit) [] oneK)).run
      { s with units := kUnits (2 : Nat) } =
        (.ok (.plain ((2 : Rat) : ℝ)), { s with units := kUnits (2 : Nat) }) := by
    rw [htwo]
    exact run_oneK rfl
  obtain ⟨x, w, hpower, -⟩ := run_lengthPower rfl hone
  refine ⟨q, .plain (2 : Nat), ⟨.scalar x, w⟩, { s with units := kUnits (2 : Nat) }, ?_⟩
  rw [run_of_parsed statementsOfText_rangeAndPower]
  exact run_runStatements_cons hx (run_runStatements_cons hk (run_runStatements_cons hpower rfl))

section

variable {P : Node → Prop}

theorem settled_of_nil {n : Node} (hchoice : n.isChoice = false) (hexponents : n.exponents = [])
    (hparts : ∀ m ∈ n.parts, m.Throughout (Node.Settled P)) : n.Throughout (Node.Settled P) :=
  .mk ⟨hchoice, fun _ he => absurd (hexponents ▸ he) List.not_mem_nil⟩ hparts

theorem settled_number (x : Decimal) (unit : Option String) :
    (Node.number x unit).Throughout (Node.Settled P) :=
  settled_of_nil rfl rfl fun _ hm => absurd hm List.not_mem_nil

theorem settled_unitRange : unitRange.Throughout (Node.Settled P) :=
  settled_of_nil rfl rfl (by simp [unitRange, Node.parts, Node.operands, settled_number])

theorem settled_lengthPower (h : P oneK) : (lengthPower oneK).Throughout (Node.Settled P) :=
  .mk ⟨rfl, List.forall_mem_singleton.mpr h⟩
    (by simp [lengthPower, oneK, Node.parts, Node.operands, settled_number])

end

/-- Two runs that draw different numbers have uncertain values, numbers and powers in the same units. -/
theorem range_and_power_alike : ∃ results t results' t',
    (run "x = 0 .. 1\n1 'k = 2\n(5 m) ^ 1 'k").run (single 0) = (.ok results, t) ∧
      (run "x = 0 .. 1\n1 'k = 2\n(5 m) ^ 1 'k").run (single 2⁻¹) = (.ok results', t') ∧
      (∀ r ∈ results ++ results', r.hasFailed = false) ∧
        List.Forall₂ (fun r r' => Option.Rel Quantity.Alike r.value? r'.value?) results results' := by
  obtain ⟨q, r, p, t, hrun⟩ := run_rangeAndPower 0
  obtain ⟨q', r', p', t', hrun'⟩ := run_rangeAndPower 2⁻¹
  -- no unit is drawn
  have hfixed : ∀ x unit, (Node.number x unit).IsFixed ℝ [] := fun _ _ =>
    .literal fun _ _ _ _ => List.not_mem_nil
  have hsettled : ∀ n ∈ rangeAndPower, n.Throughout (Node.Settled (Node.IsFixed ℝ [])) := by
    refine List.forall_mem_cons.mpr ⟨settled_of_nil rfl rfl ?_, List.forall_mem_cons.mpr
      ⟨settled_of_nil rfl rfl ?_, List.forall_mem_singleton.mpr (settled_lengthPower (hfixed _ _))⟩⟩
    · exact List.forall_mem_singleton.mpr settled_unitRange
    · exact List.forall_mem_singleton.mpr (settled_number _ _)
  have hdefines : ∀ n ∈ rangeAndPower, n.DefinesFixed ℝ [] :=
    List.forall_mem_cons.mpr ⟨trivial, List.forall_mem_cons.mpr
      ⟨.inr (hfixed _ _), List.forall_mem_singleton.mpr trivial⟩⟩
  refine ⟨_, t, _, t', hrun, hrun', ?_, units_independent_of_samples statementsOfText_rangeAndPower
    hsettled hdefines _ _ _ hrun hrun' ?_ ?_⟩
  all_goals simp [StatementResult.hasFailed]

/-! ## An exponent in a drawn unit -/

/-- `1 'k = mean(0 .. 1)` and `(5 m) ^ 1 'k` -/
def drawnPower : List Node :=
  [defineK (.call "mean" [unitRange]), lengthPower oneK]

theorem statementsOfText_drawnPower :
    Node.statementsOfText "1 'k = mean(0 .. 1)\n(5 m) ^ 1 'k" = .ok drawnPower :=
  Node.statementsOfText_of_toOption (by decide +kernel)

/-- The mean of a single particle is the particle. -/
theorem run_meanOfRange (u : ℝ) :
    (required (.call "mean" [unitRange]) (evaluateNode (evaluateWithin callLimit) []
      (.call "mean" [unitRange]))).run (single u) = (.ok (.plain u), single u) := by
  have hrange : (evaluateNode (evaluateWithin callLimit) [] unitRange).run (single u) =
      (.ok (some ⟨.sample ⟨u, []⟩, .one⟩), single u) := run_unitRange (single u)
  have harguments : (evaluateAll (evaluateWithin callLimit) [] [unitRange]).run (single u) =
      (.ok [⟨.sample ⟨u, []⟩, .one⟩], single u) := by
    rw [evaluateAll, Evaluation.run_bind_of_ok (run_required_eq_ok.mpr hrange)]
    rfl
  have hname : Builtin.ofName? "mean" = some (.math .mean) := by decide
  have hmean : (Sample.mean ⟨u, []⟩ : ℝ) = u := by
    rw [Sample.mean, Scalar.mean, Scalar.total_eq_sum]
    simp [Sample.toList]
  have hcall : (callFunction (evaluateWithin callLimit) [] "mean" [⟨.sample ⟨u, []⟩, .one⟩]).run (single u) =
      (.ok (.plain u), single u) := by
    rw [callFunction, Evaluation.run_bind_of_ok (Evaluation.run_get _)]
    show (callBuiltin "mean" _).run (single u) = _
    rw [run_callBuiltin hname]
    exact congrArg (fun x : ℝ => (Except.ok (Quantity.plain x), single u)) hmean
  rw [run_required_eq_ok, evaluateNode, Evaluation.run_bind_of_ok harguments, Evaluation.run_some_eq_ok]
  exact hcall

/-- The power has the dimension raised to the number that has been drawn. -/
theorem run_drawnPower (k : Rat) : ∃ x w t,
    (run "1 'k = mean(0 .. 1)\n(5 m) ^ 1 'k").run (single k) =
      (.ok [⟨0, defineK (.call "mean" [unitRange]), .ok (some (.plain (k : ℝ)))⟩,
        ⟨1, lengthPower oneK, .ok (some ⟨.scalar x, w⟩)⟩], t) ∧
      w.dimension = metres.dimension.pow (Exponent.snap k) := by
  obtain ⟨x, w, hpower, hw⟩ := run_lengthPower rfl
    (run_oneK (s := { single k with units := kUnits k }) rfl)
  refine ⟨x, w, { single k with units := kUnits k }, ?_, hw⟩
  rw [run_of_parsed statementsOfText_drawnPower]
  exact run_runStatements_cons (run_defineK (run_meanOfRange k) rfl) (run_runStatements_cons hpower rfl)

/-- **An exponent may be drawn** with the unit of its literal. Five metres to the power of one `'k` are a
plain number where `'k` has been defined as zero, and have another unit where it has been defined as one
half. The program chooses nothing, and its exponent is a number literal. -/
theorem exponent_in_drawn_unit :
    let text := "1 'k = mean(0 .. 1)\n(5 m) ^ 1 'k"
    ∃ statements, Node.statementsOfText text = .ok statements ∧
      (∀ n ∈ statements, n.Throughout (Node.Settled fun e => ∃ x unit, e = .number x unit)) ∧
      ∃ results t results' t', (run text).run (single 0) = (.ok results, t) ∧
        (run text).run (single 2⁻¹) = (.ok results', t') ∧
        (∀ r ∈ results ++ results', r.hasFailed = false) ∧
        ¬List.Forall₂ (fun r r' => Option.Rel Quantity.Alike r.value? r'.value?) results results' := by
  obtain ⟨x, w, t, hrun, hw⟩ := run_drawnPower 0
  obtain ⟨x', w', t', hrun', hw'⟩ := run_drawnPower 2⁻¹
  rw [Rat.cast_zero] at hrun
  rw [Rat.cast_inv, Rat.cast_ofNat] at hrun'
  refine ⟨_, statementsOfText_drawnPower, ?_, _, t, _, t', hrun, hrun', ?_, ?_⟩
  · refine List.forall_mem_cons.mpr ⟨settled_of_nil rfl rfl ?_, List.forall_mem_singleton.mpr
      (settled_lengthPower ⟨_, _, rfl⟩)⟩
    exact List.forall_mem_singleton.mpr
      (settled_of_nil rfl rfl (List.forall_mem_singleton.mpr settled_unitRange))
  · simp [StatementResult.hasFailed]
  · rintro (_ | ⟨-, _ | ⟨hpower, -⟩⟩)
    cases hpower with
    | some halike =>
      have hunit : w = w' := halike.unit
      have hdimension : metres.dimension.pow (Exponent.snap 0) =
          metres.dimension.pow (Exponent.snap 2⁻¹) :=
        hw.symm.trans ((congrArg CompoundUnit.dimension hunit).trans hw')
      -- the terms of a unit over the reals do not compute, but the product of their dimensions does
      have hlength : metres.dimension = Dimension.one.multiply (metre.dimension.pow 1) := rfl
      rw [hlength] at hdimension
      exact absurd hdimension (by decide +kernel)

end Session

end Ballpark
