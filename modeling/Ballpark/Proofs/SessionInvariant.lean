import Ballpark.Proofs.Preservation
import Ballpark.Proofs.SamplerOutcome

/-!
# Classes of units in a session

If everything that a session stores is in units of a class that arithmetic does not leave, then so is
everything that an evaluation comes to and everything that it stores, and what an evaluation ends in
otherwise is a fault of evaluation (`UnitClass.contract_holds`). The settings stay as they are.
-/

namespace Ballpark

variable {R S : Type}

/-- A session in given settings that stores nothing outside a class of units. -/
structure Session.Stores [Scalar R] (C : UnitClass R) (settings : Settings R) (s : Session R S) :
    Prop where
  settings : s.settings = settings
  values : s.values.All C.Val
  pins : s.pins.All C.Val
  units : s.units.All C.Val
  constants : s.constants.All C.Val

namespace UnitClass

variable [Scalar R]

/-- Sessions and quantities stay in a class of units, and the settings stay as they are. -/
def contract (S : Type) (C : UnitClass R) (settings : Settings R) : Contract R S :=
  ⟨Session.Stores C settings, C.Val, Fault.FromEvaluation⟩

variable {C : UnitClass R} {settings : Settings R}

/-! ## Steps of evaluation -/

/-- The faults of computations that read some texts are faults of evaluation. -/
theorem keeps_fromEvaluation {α : Type} {m : Evaluation R S α} {P : α → Prop} {texts : List String}
    (h : Keeps (C.contract S settings).Inv m P (Fault.From texts)) :
    Keeps (C.contract S settings).Inv m P Fault.FromEvaluation :=
  h.mono (fun _ => id) fun _ => Fault.From.fromEvaluation

/-- What a sampler does to the source does not matter. -/
theorem draw_keeps {α : Type} {d : Draw R S α} {P : α → Prop} {E : Fault R → Prop}
    (h : Keeps (fun _ => True) d P E) :
    Keeps (C.contract S settings).Inv (Evaluation.draw d) P E := by
  intro s hs
  exact ⟨(h s.source True.intro).1, hs.settings, hs.values, hs.pins, hs.units, hs.constants⟩

/-- Samplers draw in the unit that they are told. -/
theorem sampleIn_keeps {unit : CompoundUnit R} (hunit : C.Mem unit)
    {sampler : Written R → SampleFrame R → Draw R S (Quantity R)}
    (h : ∀ confidence count, Proper [] count → SampleFrame.Gives ⟨count, .unit unit⟩
      (sampler confidence ⟨count, .unit unit⟩)) :
    Keeps (C.contract S settings).Inv (Session.sampleIn unit sampler) C.Val (Fault.From []) := by
  refine .bind .get fun session _ => draw_keeps (Draws.of_gives (h _ _ (.ok True.intro)) fun u hu => ?_)
  cases hu
  exact hunit

theorem withUnits_keeps {α : Type} {f : Bindings (Quantity R) → Except (Fault R) α} {P : α → Prop}
    {E : Fault R → Prop} (h : ∀ units, units.All C.Val → Ends (f units) P E) :
    Keeps (C.contract S settings).Inv (Session.withUnits f) P E :=
  fun s hs => ⟨h s.units hs.units, hs⟩

/-- A fault inside a call is a fault of evaluation too. -/
theorem inCall_from {texts : List String} {f : Fault R} (h : f.From texts) (name : String) :
    (Session.inCall name f).From texts := by
  rw [Session.inCall.eq_def]
  split
  · exact True.intro
  · exact True.intro
  · exact h

theorem adapt_draws {texts : List String} {call : Draw R S (Quantity R)} (h : C.Draws texts call)
    (name : String) : C.Draws texts (call.adapt (Session.inCall name) : Draw R S (Quantity R)) := by
  refine fun s _ => ⟨?_, True.intro⟩
  have hend := (h s True.intro).1
  show Ends ((call.run s).1.mapError (Session.inCall name)) _ _
  rcases hcall : (call.run s).1 with f | q
  · rw [hcall] at hend
    exact .error (inCall_from (hend.of_error rfl) name)
  · rw [hcall] at hend
    exact .ok (hend.of_ok rfl)

theorem assign_keeps (name : String) {q : Quantity R} (hq : C.Val q) :
    (C.contract S settings).Kept (Session.assign name q) := by
  refine .bind .get fun session hsession => ?_
  have hvalue : C.Val ((session.pins.get? name).getD q) := by
    rcases hpin : session.pins.get? name with _ | pin
    · exact hq
    · exact hsession.pins _ pin hpin
  refine .bind (.modify fun s hs => ?_) fun _ _ => .pure hvalue
  exact ⟨hs.settings, hs.values.set name hvalue, hs.pins, hs.units, hs.constants⟩

theorem defineUnit_keeps (name : String) (count : R) {q : Quantity R} (hq : C.Val q) :
    Keeps (C.contract S settings).Inv (Session.defineUnit name count q) C.Val (Fault.From []) := by
  refine .bind (P := C.Val) (fun _ hs => ⟨unitOf_gives name count hq, hs⟩) fun unit hunit => ?_
  refine .bind (.modify fun s hs => ?_) fun _ _ => .pure hunit
  exact ⟨hs.settings, hs.values, hs.pins, hs.units.set name hunit, hs.constants⟩

variable [RandomSource S R]

/-- The texts of the units that the value of a constant may be read in. -/
def constantTexts (R : Type) [Scalar R] (name : String) : List String :=
  (Constant.ofName? (R := R) name).toList.map (·.unitText)

theorem constant_keeps (name : String) : Keeps (C.contract S settings).Inv (Session.constant? name)
    (C.contract S settings).Opt (Fault.From (constantTexts R name)) := by
  refine .bind .get fun session hsession => ?_
  refine .bind (draw_keeps (remember_keeps _ (.ok True.intro) name hsession.constants)) fun r hr => ?_
  refine .bind (.modify fun s hs => ?_) fun _ _ => .pure hr.1
  exact ⟨hs.settings, hs.values, hs.pins, hs.units, hr.2⟩

theorem valueOf_keeps (name : String) : Keeps (C.contract S settings).Inv (Session.valueOf? name)
    (C.contract S settings).Opt (Fault.From (constantTexts R name)) := by
  refine .bind .get fun session hsession => ?_
  split
  · rename_i q hq
    exact .pure fun p hp => Option.some.inj hp ▸ hsession.values _ q hq
  · exact constant_keeps name

theorem callBuiltin_keeps (name : String) {arguments : List (Quantity R)}
    (harguments : ∀ q ∈ arguments, C.Val q) :
    Keeps (C.contract S settings).Inv (Session.callBuiltin name arguments) C.Val (Fault.From []) := by
  refine .bind .get fun session _ => ?_
  split
  · exact .throw True.intro
  split
  · exact .throw True.intro
  · rename_i call hcall
    exact draw_keeps (adapt_draws (builtin_draws (.ok True.intro) harguments hcall) name)

/-- The number of a literal whose last place is uncertain. -/
theorem sigFig_keeps (text : String) (unit : Option String) :
    Keeps (C.contract S settings).Inv (Session.sigFig text unit) C.Val
      (Fault.From (Session.written? unit).toList) := by
  refine .bind (P := fun _ => True) (fun _ hs => ⟨literalBounds_proper text, hs⟩) fun b _ => ?_
  have hdraw : Keeps (C.contract S settings).Inv (Session.sampleIn .one fun _ frame =>
      Sampler.uniform b.1 b.2 frame) C.Val (Fault.From []) :=
    sampleIn_keeps C.one fun _ _ h => Sampler.uniform_gives h _ _
  refine (hdraw.mono (fun _ => id) fun _ hf => hf.mono (List.nil_subset _)).bind fun q hq => ?_
  exact withUnits_keeps fun units hunits => inUnit_gives hunits hq unit

/-- **Every step of evaluation** stays in the class. -/
theorem contract_holds : (C.contract S settings).Holds where
  -- an evaluation ends in none of these three, nor are they the calculator's own
  calculators f hf := by
    cases f with
    | value | missingColumns | wrongSort => cases hf
    | _ => exact True.intro
  exhausted := True.intro
  literal x unit := keeps_fromEvaluation (withUnits_keeps fun _ hunits => literal_gives hunits x unit)
  sigFig text unit := keeps_fromEvaluation (sigFig_keeps text unit)
  valueOf name := keeps_fromEvaluation (valueOf_keeps name)
  unitName name := (ofText_gives _ (List.mem_singleton_self name)).fromEvaluation
  unit text := keeps_fromEvaluation
    (withUnits_keeps fun _ hunits => unitQuantity_gives hunits (List.mem_singleton_self text))
  binary op _ _ hx hy := (show C.Gives [] _ from binary_gives op hx hy).fromEvaluation
  unary op _ hx := (show C.Gives [] _ from unary_gives op hx).fromEvaluation
  range right unit _ _ _ hy :=
    (withUnits_keeps fun _ hunits => (strictBounds_give hunits right hy unit).fromEvaluation).mono
      (fun _ hb => keeps_fromEvaluation (sampleIn_keeps hb fun _ _ h => Sampler.interval_gives h _ _ _))
      fun _ => id
  uniformRange unit _ _ hx hy :=
    (withUnits_keeps fun _ hunits => (looseBounds_give hunits hx hy true unit).fromEvaluation).mono
      (fun _ hb => keeps_fromEvaluation (sampleIn_keeps hb fun _ _ h => Sampler.uniform_gives h _ _))
      fun _ => id
  normalRange unit _ _ hx hy :=
    (withUnits_keeps fun _ hunits => (looseBounds_give hunits hx hy false unit).fromEvaluation).mono
      (fun _ hb => keeps_fromEvaluation (sampleIn_keeps hb fun _ _ h => Sampler.normal_gives h _ _ _))
      fun _ => id
  outOf x y := keeps_fromEvaluation (sampleIn_keeps C.one fun _ _ h => Sampler.outOf_gives h x y)
  against x y := keeps_fromEvaluation (sampleIn_keeps C.one fun _ _ h => Sampler.against_gives h x y)
  weighted xs ws := keeps_fromEvaluation
    (sampleIn_keeps C.one fun _ _ h => Sampler.weighted_gives h xs ws)
  percent x := keeps_fromEvaluation
    (sampleIn_keeps C.one fun confidence _ h => Sampler.percent_gives h x confidence)
  decibels x := keeps_fromEvaluation
    (sampleIn_keeps C.one fun confidence _ h => Sampler.decibels_gives h x confidence)
  inUnit unit _ hq := keeps_fromEvaluation (withUnits_keeps fun _ hunits => inUnit_gives hunits hq unit)
  convertTo target _ hq :=
    keeps_fromEvaluation (withUnits_keeps fun _ hunits => convertTo_gives hunits hq target)
  choose _ _ hx _ := (show C.Gives [] _ from choose_gives _ hx).fromEvaluation
  builtin name _ harguments := keeps_fromEvaluation (callBuiltin_keeps name harguments)
  assign name _ hq := assign_keeps name hq
  defineUnit name count _ hq := keeps_fromEvaluation (defineUnit_keeps name count hq)
  defineFunction _ := .modify fun _ hs => ⟨hs.settings, hs.values, hs.pins, hs.units, hs.constants⟩

end UnitClass

end Ballpark
