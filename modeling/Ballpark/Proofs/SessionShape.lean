import Ballpark.Proofs.EvaluationPoint
import Ballpark.Proofs.Recovery
import Ballpark.Proofs.SamplerSize
import Ballpark.Proofs.UnitShape

/-!
# The shape of everything in a session

A session has one number of particles. Every quantity that it stores or shows is exact or has so many
particles, and its unit is canonical (`Quantity.Shaped`). The units are a class that evaluation does not
leave (`UnitClass.shaped`), and the numbers of particles are a contract of their own
(`Session.fitting_holds`): one lemma says of each step of evaluation that it keeps to it. Both hold at
every point of an evaluation and for runs of whole programs, so they hold in every session that calls
lead to (`Session.shape_kept`).
-/

namespace Ballpark

variable {R S : Type}

/-- Nothing is asked of faults. -/
theorem ends_of_ok {ε α : Type} {x : Except ε α} {P : α → Prop} (h : ∀ a, x = .ok a → P a) :
    Ends x P fun _ => True := by
  cases x with
  | ok a => exact .ok (h a rfl)
  | error e => exact .error True.intro

/-! ## Contracts of runs -/

namespace Contract.Holds

open Session Evaluation

variable [Scalar R] [RandomSource S R] {c : Contract R S} (h : c.Holds)
include h

/-- A statement of a run leaves the session that its evaluation leaves, whether its fault is shown or
not. -/
theorem runStatement_keeps (node : Node) :
    Keeps c.Inv (runStatement node) (fun o => ∀ q, o = .ok (some q) → c.Val q) c.Err := by
  intro s hs
  obtain ⟨hends, hkept⟩ := h.evaluateTree_keeps node s hs
  have hrun : (evaluateTree node).run s = (((evaluateTree node).run s).1, ((evaluateTree node).run s).2) :=
    rfl
  rcases hout : ((evaluateTree node).run s).1 with f | value
  · rw [hout] at hrun hends
    rw [runStatement, run_tryCatch_of_error (run_map_of_error hrun)]
    rcases recovered? f with _ | shown
    · exact ⟨.error (hends.of_error rfl), hkept⟩
    · refine ⟨.ok fun _ hq => ?_, hkept⟩
      cases hq
  · rw [hout] at hrun hends
    rw [runStatement, run_tryCatch_of_ok (run_map_eq_ok.mpr ⟨value, hrun, rfl⟩)]
    exact ⟨.ok fun q hq => hends.of_ok rfl q (Except.ok.inj hq), hkept⟩

theorem runStatements_keeps (index : Nat) (statements : List Node) :
    Keeps c.Inv (runStatements index statements)
      (fun results => ∀ r ∈ results, ∀ q, r.value? = some q → c.Val q) c.Err := by
  induction statements generalizing index with
  | nil => exact .pure fun _ hr => absurd hr List.not_mem_nil
  | cons node rest ih =>
    refine (h.runStatement_keeps node).bind fun o ho => (ih (index + 1)).bind fun results hresults => ?_
    refine .pure (List.forall_mem_cons.mpr ⟨fun q hq => ?_, hresults⟩)
    rcases o with f | value
    · cases hq
    · obtain rfl : value = some q := hq
      exact ho q rfl

theorem reading_keeps {α : Type} (e : Except ProgramFault α) :
    Keeps c.Inv (reading e : Evaluation R S α) (fun _ => True) c.Err := by
  refine fun s hs => ⟨?_, hs⟩
  show Ends (e.mapError Fault.program) _ _
  cases e with
  | ok a => exact .ok True.intro
  | error f => exact .error (h.calculators _ rfl)

/-- A run keeps to a contract that evaluation keeps to. -/
theorem run_keeps (source : String) : Keeps c.Inv (run source)
    (fun results => ∀ r ∈ results, ∀ q, r.value? = some q → c.Val q) c.Err :=
  (h.reading_keeps _).bind fun statements _ => h.runStatements_keeps 0 statements

theorem evaluate_keeps (source : String) : c.KeptOpt (evaluate source) :=
  (h.reading_keeps _).bind fun node _ => h.evaluateTree_keeps node

end Contract.Holds

/-! ## The number of particles -/

/-- A session with a given number of particles that stores nothing but what fits it. -/
structure Session.StoresFitting (n : SampleCount) (s : Session R S) : Prop where
  count : s.settings.sampleCount = n
  values : s.values.All (·.Fits n)
  pins : s.pins.All (·.Fits n)
  units : s.units.All (·.Fits n)
  constants : s.constants.All (·.Fits n)

namespace Session

variable {n : SampleCount}

/-- Sessions and quantities fit a number of particles. -/
def fitting (R S : Type) (n : SampleCount) : Contract R S :=
  ⟨StoresFitting n, Quantity.Fits n, fun _ => True⟩

theorem draw_fitting {α : Type} {d : Draw R S α} {P : α → Prop} (h : d.Yields P) :
    Keeps (fitting R S n).Inv (Evaluation.draw d) P fun _ => True := by
  refine fun s hs => ⟨ends_of_ok fun a ha => h s.source a (d.run s.source).2 ?_, ?_⟩
  · exact Prod.ext ha rfl
  · exact ⟨hs.count, hs.values, hs.pins, hs.units, hs.constants⟩

theorem withUnits_fitting {α : Type} {f : Bindings (Quantity R) → Except (Fault R) α} {P : α → Prop}
    (h : ∀ units a, units.All (·.Fits n) → f units = .ok a → P a) :
    Keeps (fitting R S n).Inv (withUnits f) P fun _ => True :=
  fun s hs => ⟨ends_of_ok fun a ha => h s.units a hs.units ha, hs⟩

theorem sampleIn_fitting (unit : CompoundUnit R)
    {sampler : Written R → SampleFrame R → Draw R S (Quantity R)}
    (h : ∀ confidence, Draw.Fits n
      (sampler confidence ⟨.ok n, .unit unit⟩)) :
    (fitting R S n).Kept (sampleIn unit sampler) := by
  refine .bind .get fun session hsession => draw_fitting ?_
  have hcount : session.settings.sampleCount = n := hsession.count
  rw [Session.frame, hcount]
  exact h _

theorem assign_fitting (name : String) {q : Quantity R} (hq : q.Fits n) :
    (fitting R S n).Kept (assign name q) := by
  refine .bind .get fun session hsession => ?_
  have hvalue : ((session.pins.get? name).getD q).Fits n := by
    rcases hpin : session.pins.get? name with _ | pin
    · exact hq
    · exact hsession.pins _ pin hpin
  refine .bind (.modify fun s hs => ?_) fun _ _ => .pure hvalue
  exact ⟨hs.count, hs.values.set name hvalue, hs.pins, hs.units, hs.constants⟩

variable [Scalar R]

theorem defineUnit_fitting (name : String) (count : R) {q : Quantity R}
    (hq : q.Fits n) : (fitting R S n).Kept (defineUnit name count q) := by
  have hunit : Keeps (fitting R S n).Inv (Evaluation.ofExcept (unitOf name count q))
      (Quantity.Fits n) fun _ => True :=
    fun _ hs => ⟨ends_of_ok fun _ h => unitOf_fits hq h, hs⟩
  refine hunit.bind fun unit hunit => .bind (.modify fun s hs => ?_) fun _ _ => .pure hunit
  exact ⟨hs.count, hs.values, hs.pins, hs.units.set name hunit, hs.constants⟩

variable [RandomSource S R]

theorem valueOf_fitting (name : String) : (fitting R S n).KeptOpt (valueOf? name) := by
  refine .bind .get fun session hsession => ?_
  split
  · rename_i q hq
    exact .pure fun p hp => Option.some.inj hp ▸ hsession.values _ q hq
  · refine .bind .get fun session hsession => ?_
    have hcount : session.settings.sampleCount = n := hsession.count
    rw [hcount]
    refine .bind (draw_fitting (Constant.remember_fits _ name hsession.constants)) fun r hr => ?_
    refine .bind (.modify fun s hs => ?_) fun _ _ => .pure hr.1
    exact ⟨hs.count, hs.values, hs.pins, hs.units, hr.2⟩

theorem callBuiltin_fitting (name : String) {arguments : List (Quantity R)}
    (harguments : ∀ q ∈ arguments, q.Fits n) :
    (fitting R S n).Kept (callBuiltin name arguments) := by
  refine .bind .get fun session hsession => ?_
  have hcount : session.settings.sampleCount = n := hsession.count
  rw [Session.frame, hcount]
  split
  · exact .throw True.intro
  split
  · exact .throw True.intro
  · rename_i call hcall
    exact draw_fitting ((Builtin.call_fits harguments hcall).adapt _)

theorem sigFig_fitting (text : String) (unit : Option String) :
    (fitting R S n).Kept (sigFig text unit) := by
  refine .bind (P := fun _ => True) (fun _ hs => ⟨ends_of_ok fun _ _ => True.intro, hs⟩) fun b _ => ?_
  refine .bind (sampleIn_fitting .one fun _ => Sampler.uniform_fits rfl _ _) fun q hq => ?_
  exact withUnits_fitting fun _ _ hunits h => inUnit_fits hunits hq h

/-- **Every step of evaluation** keeps to the number of particles. -/
theorem fitting_holds : (fitting R S n).Holds where
  calculators _ _ := True.intro
  exhausted := True.intro
  literal _ _ := withUnits_fitting fun _ _ hunits h => literal_fits hunits h
  sigFig := sigFig_fitting
  valueOf := valueOf_fitting
  unitName _ := ends_of_ok fun _ h => Quantity.ofText_fits (.inl rfl) h
  unit _ := withUnits_fitting fun _ _ hunits h => unitQuantity_fits hunits h
  binary op _ _ hx hy := ends_of_ok fun _ h => binary_fits op hx hy h
  unary op _ hx := ends_of_ok fun _ h => unary_fits op hx h
  range _ _ _ _ _ _ := withUnits_fitting fun _ b _ _ =>
    sampleIn_fitting b.unit fun _ => Sampler.interval_fits rfl _ _ _
  uniformRange _ _ _ _ _ := withUnits_fitting fun _ b _ _ =>
    sampleIn_fitting b.unit fun _ => Sampler.uniform_fits rfl _ _
  normalRange _ _ _ _ _ := withUnits_fitting fun _ b _ _ =>
    sampleIn_fitting b.unit fun _ => Sampler.normal_fits rfl _ _ _
  outOf _ _ := sampleIn_fitting .one fun _ => Sampler.outOf_fits _ _
  against _ _ := sampleIn_fitting .one fun _ => Sampler.against_fits _ _
  weighted _ _ := sampleIn_fitting .one fun _ => Sampler.weighted_fits rfl _ _
  percent _ := sampleIn_fitting .one fun _ => Sampler.percent_fits _ _
  decibels _ := sampleIn_fitting .one fun _ => Sampler.decibels_fits _ _
  inUnit _ _ hq := withUnits_fitting fun _ _ hunits h => inUnit_fits hunits hq h
  convertTo _ _ hq := withUnits_fitting fun _ _ hunits h => convertTo_fits hunits hq h
  choose {q s _ _} hq hs hx hy := by
    have hsample : (Value.sample s).Fits n.size := hs ▸ (hq : q.value.Fits n.size)
    exact ends_of_ok fun _ h => choose_fits (hsample.size_eq rfl) hx hy h
  builtin name _ harguments := callBuiltin_fitting name harguments
  assign name _ hq := assign_fitting name hq
  defineUnit name count _ hq := defineUnit_fitting name count hq
  defineFunction _ := .modify fun _ hs => ⟨hs.count, hs.values, hs.pins, hs.units, hs.constants⟩

end Session

/-! ## Shapes -/

/-- What every quantity in a session of `n` particles is like: exact, or of so many particles, and in a
canonical unit. -/
structure Quantity.Shaped (n : SampleCount) (q : Quantity R) : Prop where
  fits : q.Fits n
  unit : q.unit.Shaped

/-- A session of `n` particles in which every quantity that is stored has its shape. -/
structure Session.Shaped (n : SampleCount) (s : Session R S) : Prop where
  count : s.settings.sampleCount = n
  values : s.values.All (·.Shaped n)
  pins : s.pins.All (·.Shaped n)
  units : s.units.All (·.Shaped n)
  constants : s.constants.All (·.Shaped n)

namespace Session

variable {n : SampleCount}

theorem shaped_ofSource (settings : Settings R) (source : S) :
    (ofSource settings source).Shaped settings.sampleCount :=
  ⟨rfl, .empty, .empty, .empty, .empty⟩

theorem Shaped.storesFitting {s : Session R S} (h : s.Shaped n) : s.StoresFitting n where
  count := h.count
  values name q hq := (h.values name q hq).fits
  pins name q hq := (h.pins name q hq).fits
  units name q hq := (h.units name q hq).fits
  constants name q hq := (h.constants name q hq).fits

variable [Scalar R]

theorem Shaped.stores {s : Session R S} (h : s.Shaped n) : s.Stores (.shaped R) s.settings where
  settings := rfl
  values name q hq := (h.values name q hq).unit
  pins name q hq := (h.pins name q hq).unit
  units name q hq := (h.units name q hq).unit
  constants name q hq := (h.constants name q hq).unit

/-- The numbers of particles and the units together are the shape. -/
theorem StoresFitting.shaped {s : Session R S} {settings : Settings R} (h : s.StoresFitting n)
    (hunits : s.Stores (.shaped R) settings) : s.Shaped n where
  count := h.count
  values name q hq := ⟨h.values name q hq, hunits.values name q hq⟩
  pins name q hq := ⟨h.pins name q hq, hunits.pins name q hq⟩
  units name q hq := ⟨h.units name q hq, hunits.units name q hq⟩
  constants name q hq := ⟨h.constants name q hq, hunits.constants name q hq⟩

variable {s : Session R S}

/-- Both contracts at once: what an evaluation with a result leaves and gives has the shape. -/
theorem Shaped.keeps {α : Type} {m : Evaluation R S α} {P Q : α → Prop} {E F : Fault R → Prop}
    (h : s.Shaped n) (hfits : Keeps (fitting R S n).Inv m P E)
    (hunits : Keeps ((UnitClass.shaped R).contract S s.settings).Inv m Q F) :
    (m.run s).2.Shaped n ∧ ∀ a, (m.run s).1 = .ok a → P a ∧ Q a := by
  obtain ⟨hp, hfitting⟩ := hfits s h.storesFitting
  obtain ⟨hq, hstores⟩ := hunits s h.stores
  exact ⟨hfitting.shaped hstores, fun a ha => ⟨hp.of_ok ha, hq.of_ok ha⟩⟩

variable [RandomSource S R]

theorem Shaped.evaluateTree (h : s.Shaped n) (node : Node) :
    (next node s).Shaped n ∧ ∀ q, outcome node s = .ok (some q) → q.Shaped n := by
  obtain ⟨hnext, hvalue⟩ := h.keeps (fitting_holds.evaluateTree_keeps node)
    (UnitClass.contract_holds.evaluateTree_keeps node)
  exact ⟨hnext, fun q hq => ⟨(hvalue _ hq).1 q rfl, (hvalue _ hq).2 q rfl⟩⟩

theorem Shaped.evaluate (h : s.Shaped n) (source : String) :
    ((evaluate source).run s).2.Shaped n ∧
      ∀ q, ((evaluate source).run s).1 = .ok (some q) → q.Shaped n := by
  obtain ⟨hnext, hvalue⟩ := h.keeps (fitting_holds.evaluate_keeps source)
    (UnitClass.contract_holds.evaluate_keeps source)
  exact ⟨hnext, fun q hq => ⟨(hvalue _ hq).1 q rfl, (hvalue _ hq).2 q rfl⟩⟩

theorem Shaped.run (h : s.Shaped n) (source : String) :
    ((run source).run s).2.Shaped n ∧ ∀ results, ((run source).run s).1 = .ok results →
      ∀ r ∈ results, ∀ q, r.value? = some q → q.Shaped n := by
  obtain ⟨hnext, hresults⟩ := h.keeps (fitting_holds.run_keeps source)
    (UnitClass.contract_holds.run_keeps source)
  exact ⟨hnext, fun results hok r hr q hq =>
    ⟨(hresults _ hok).1 r hr q hq, (hresults _ hok).2 r hr q hq⟩⟩

/-- At every point that an evaluation comes through, the session and the frames have the shape, and so
has what the evaluation from there gives. -/
theorem Shaped.reaches (h : s.Shaped n) {node : Node} {p : Point R S}
    (hp : (Point.start node s).Reaches p) : p.session.Shaped n ∧
      (∀ frame ∈ p.frames, frame.All (·.Shaped n)) ∧
        ∀ q t, p.run = (.ok (some q), t) → q.Shaped n := by
  have hfits : (fitting R S n).At p :=
    fitting_holds.reaches hp ⟨Contract.framed_nil, h.storesFitting⟩
  have hunits : ((UnitClass.shaped R).contract S s.settings).At p :=
    UnitClass.contract_holds.reaches hp ⟨Contract.framed_nil, h.stores⟩
  refine ⟨StoresFitting.shaped hfits.session hunits.session, fun frame hframe name q hq => ?_,
    fun q t hrun => ?_⟩
  · exact ⟨hfits.frames frame hframe name q hq, hunits.frames frame hframe name q hq⟩
  · exact ⟨(fitting_holds.run_kept hrun hfits.frames hfits.session).1,
      (UnitClass.contract_holds.run_kept hrun hunits.frames hunits.session).1⟩

/-- The sessions that calls lead to: programs are run and evaluated, trees are evaluated, variables are
set and pinned to quantities of the session's shape, and the session is cleared and reset. -/
inductive Called : Session R S → Prop
  | start (settings : Settings R) (source : S) : Called (.ofSource settings source)
  | run {s : Session R S} (h : Called s) (source : String) : Called ((run source).run s).2
  | evaluate {s : Session R S} (h : Called s) (source : String) : Called ((evaluate source).run s).2
  | evaluateTree {s : Session R S} (h : Called s) (node : Node) : Called (next node s)
  | setVariable {s : Session R S} (h : Called s) (name : String) {q : Quantity R}
      (hq : q.Shaped s.settings.sampleCount) : Called (s.setVariable name q)
  | pinVariable {s : Session R S} (h : Called s) (name : String) {q : Quantity R}
      (hq : q.Shaped s.settings.sampleCount) : Called (s.pinVariable name q)
  | clearVariables {s : Session R S} (h : Called s) : Called s.clearVariables
  | reset {s : Session R S} (h : Called s) : Called s.reset

/-- **The shape is an invariant of sessions**: induction on the calls. -/
theorem Called.shaped (h : Called s) : s.Shaped s.settings.sampleCount := by
  induction h with
  | start settings source => exact shaped_ofSource settings source
  | run _ source ih =>
    have hnext := (ih.run source).1
    exact hnext.count ▸ hnext
  | evaluate _ source ih =>
    have hnext := (ih.evaluate source).1
    exact hnext.count ▸ hnext
  | evaluateTree _ node ih =>
    have hnext := (ih.evaluateTree node).1
    exact hnext.count ▸ hnext
  | setVariable _ name hq ih => exact ⟨rfl, ih.values.set name hq, ih.pins, ih.units, ih.constants⟩
  | pinVariable _ name hq ih =>
    exact ⟨rfl, ih.values.set name hq, ih.pins.set name hq, ih.units, ih.constants⟩
  | clearVariables _ ih => exact ⟨rfl, .empty, ih.pins, ih.units, ih.constants⟩
  | reset => exact shaped_ofSource _ _

/-- **Everything in a session is exact or has as many particles as the session, in a canonical unit**:
what is stored, what runs and evaluations of programs and of trees show, and at every point that an
evaluation comes through the variables, pins, units and constants, the values in the frames of bindings
and calls, and the value that is given there. So when two uncertain quantities of the session are
combined, each particle meets the one at its own place, and none is used twice. -/
theorem shape_kept (h : Called s) :
    let n := s.settings.sampleCount
    s.Shaped n ∧
    (∀ source results, ((Session.run source).run s).1 = .ok results →
      ∀ r ∈ results, ∀ q, r.value? = some q → q.Shaped n) ∧
    (∀ source q, ((Session.evaluate source).run s).1 = .ok (some q) → q.Shaped n) ∧
    (∀ node q, outcome node s = .ok (some q) → q.Shaped n) ∧
    (∀ node p, (Point.start node s).Reaches p → p.session.Shaped n ∧
      (∀ frame ∈ p.frames, frame.All (·.Shaped n)) ∧
        ∀ q t, p.run = (.ok (some q), t) → q.Shaped n) ∧
    ∀ a b : Quantity R, a.Shaped n → b.Shaped n → ∀ x y, a.value = .sample x → b.value = .sample y →
      ∀ f : R → R → R, (x.zipWith f y).toList = List.zipWith f x.toList y.toList := by
  intro n
  have hs := h.shaped
  refine ⟨hs, fun source => (hs.run source).2, fun source => (hs.evaluate source).2,
    fun node => (hs.evaluateTree node).2, fun node p => hs.reaches, ?_⟩
  intro a b ha hb x y hx hy f
  have hxfits : (Value.sample x).Fits n.size := hx ▸ (ha.fits : a.value.Fits n.size)
  have hyfits : (Value.sample y).Fits n.size := hy ▸ (hb.fits : b.value.Fits n.size)
  exact Value.zipWith_of_fits hxfits hyfits f

/-- A session of two particles in which `x` is uncertain. -/
noncomputable def uncertainX : Session ℝ (ConstantSource ℝ) :=
  (ofSource ⟨⟨2, Nat.two_pos⟩, .decimal 0.9, none⟩ ⟨0, 0⟩).setVariable "x" ⟨.sample ⟨1, [2]⟩, .one⟩

theorem called_uncertainX : Called uncertainX :=
  .setVariable (.start _ _) "x" ⟨.inr rfl, CompoundUnit.shaped_one⟩

/-- The square of an uncertain number is as uncertain as the number, and plain. -/
theorem square_shaped : ∃ q,
    outcome (.binary .multiply (.identifier "x") (.identifier "x")) uncertainX = .ok (some q) ∧
      q.isScalar = false ∧ q.size = 2 ∧ q.unit.Canonical := by
  let x : Quantity ℝ := ⟨.sample ⟨1, [2]⟩, .one⟩
  have hx : uncertainX.values.get? "x" = some x := by
    rw [uncertainX, setVariable, Bindings.get?_set, if_pos rfl]
  have hsound : x.Sound := ⟨CompoundUnit.known_one, CompoundUnit.canonical_one⟩
  obtain ⟨q, hq, hcombines⟩ := Quantity.multiply_combines hsound hsound
  have hproduct : binary .multiply x x = .ok q := hq
  have hrun : outcome (.binary .multiply (.identifier "x") (.identifier "x")) uncertainX =
      .ok (some q) := by
    rw [outcome, evaluateTree, evaluateWithin, evaluateNode,
      Evaluation.run_bind_of_ok (run_required_variable hx _),
      Evaluation.run_bind_of_ok (run_required_variable hx _),
      Evaluation.run_some_eq_ok.mpr (Evaluation.run_ofExcept_eq_ok.mpr ⟨hproduct, rfl⟩)]
  have hscalar : q.isScalar = false := hcombines.isScalar
  have hshaped := (shape_kept called_uncertainX).2.2.2.1 _ q hrun
  exact ⟨q, hrun, hscalar, Value.Fits.size_eq hshaped.fits hscalar, hshaped.unit.canonical⟩

end Session

end Ballpark
