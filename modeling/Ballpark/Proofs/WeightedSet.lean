import Ballpark.Proofs.DimensionSpace
import Ballpark.Proofs.RangeScale
import Ballpark.Proofs.WeightedDraw

/-!
# Units in weighted sets

A weighted set draws from the numbers of its values and multiplies by the unit behind it. The units of
the values are not looked at, and neither are their dimensions: a set is drawn from whenever its weights
allow it, `{1 m: 1, 1 s: 1}` as well as `{2 km: 1}`, which comes to a plain two.

So the units that the values are written in count only if the unit behind the set happens to say the
same (`Session.weightedSet_isOneOf_iff`). A value with a weight has an interval of the uniform numbers
for itself, and the first value has at least the number zero (`Sampler.picking_nonempty_iff`); all of
these must be values of the set again when their numbers are taken in the unit behind it.
-/

namespace Ballpark

open Session Evaluation

/-! ## Evaluating a weighted set -/

/-- A quantity all of whose particles are, in base units, values of a list, all of its dimension. -/
structure Quantity.IsOneOf (xs : List (Quantity ℝ)) (q : Quantity ℝ) : Prop where
  dimension : ∀ x ∈ xs, q.dimension = x.dimension
  inBase : ∀ i < q.size, ∃ x ∈ xs, q.inBase i = x.inBase i

namespace Session

/-- The numbers of some values. -/
noncomputable def numbers (xs : List (Quantity ℝ)) : List ℝ :=
  xs.map (·.mean)

/-- One of the unit behind a set; with nothing behind it, one. -/
noncomputable def unitBehind (units : Bindings (Quantity ℝ)) (unit : Option String) :
    Except (Fault ℝ) (Quantity ℝ) :=
  match written? unit with
  | none => .ok (.plain 1)
  | some text => unitQuantity units text

theorem unitBehind_sound {units : Bindings (Quantity ℝ)} (hunits : UnitsSound units)
    {unit : Option String} {u : Quantity ℝ} (hu : unitBehind units unit = .ok u) : u.Sound := by
  rw [unitBehind] at hu
  split at hu
  · cases hu
    exact Quantity.sound_plain 1
  · exact unitQuantity_sound hunits hu

/-- Plain numbers in the unit behind a set. -/
theorem inUnit_plain {units : Bindings (Quantity ℝ)} (hunits : UnitsSound units) {unit : Option String}
    {u : Quantity ℝ} (hu : unitBehind units unit = .ok u) (v : Value ℝ) :
    ∃ q, inUnit units ⟨v, .one⟩ unit = .ok q ∧ q.dimension = u.dimension ∧
      q.size = Max.max v.size u.size ∧ ∀ i < q.size, q.inBase i = v.particle i * u.inBase i := by
  have hsound := unitBehind_sound hunits hu
  have hplain : ∀ i, Quantity.inBase ⟨v, .one⟩ i = v.particle i := fun i => by
    rw [Quantity.inBase_mk, CompoundUnit.size_one, mul_one]
  rcases htext : written? unit with _ | text
  · simp only [unitBehind, htext] at hu
    cases hu
    refine ⟨⟨v, .one⟩, ?_, rfl, (max_eq_left v.size_pos).symm, fun i _ => ?_⟩
    · simp only [inUnit, htext]
      rfl
    · have hone : (Quantity.plain (1 : ℝ)).inBase i = 1 := by
        simp [Quantity.plain, Quantity.inBase_mk]
      rw [hplain, hone, mul_one]
  · simp only [unitBehind, htext] at hu
    have hleft : Quantity.Sound ⟨v, .one⟩ := ⟨CompoundUnit.known_one, CompoundUnit.canonical_one⟩
    obtain ⟨q, hq, hcombines⟩ := Quantity.multiply_combines hleft hsound
    refine ⟨q, ?_, ?_, hcombines.size, fun i hi => ?_⟩
    · simp only [inUnit, htext, hu, bind, Except.bind]
      exact hq
    · have hnormal : u.dimension.Normal := u.unit.normal_dimension
      have hone := (Dimension.normal_one.multiply_comm hnormal).trans hnormal.multiply_one
      exact hcombines.dimension.trans hone
    · rw [hcombines.inBase i (hcombines.size ▸ hi), hplain]

variable {S : Type} [RandomSource S ℝ]

/-- What a weighted set makes of its values and their weights. -/
noncomputable def drawWeighted (xs ws : List (Quantity ℝ)) (unit : Option String) :
    Evaluation ℝ S (Option (Quantity ℝ)) := do
  let q ← sampleIn .one fun _ frame => Sampler.weighted (numbers xs) (numbers ws) frame
  some <$> withUnits (inUnit · q unit)

theorem run_weightedSet {values weights : List Node} (unit : Option String) {body : TreeEvaluation ℝ S}
    {F : Frames ℝ} {xs ws : List (Quantity ℝ)} {s s₁ s₂ : Session ℝ S}
    (hvalues : (evaluateAll body F values).run s = (.ok xs, s₁))
    (hweights : (evaluateAll body F weights).run s₁ = (.ok ws, s₂)) :
    (evaluateNode body F (.weightedSet values weights unit)).run s = (drawWeighted xs ws unit).run s₂ := by
  rw [evaluateNode, run_bind_of_ok hvalues, run_bind_of_ok hweights]
  rfl

/-- The numbers of the values, taken in the unit behind the set, are what is drawn from. -/
theorem run_drawWeighted {s : Session ℝ S} (hunits : UnitsSound s.units) {xs ws : List (Quantity ℝ)}
    {unit : Option String} {u : Quantity ℝ} (hweighs : Sampler.Weighs (numbers xs) (numbers ws))
    (hu : unitBehind s.units unit = .ok u) :
    ∃ q t, (drawWeighted xs ws unit).run s = (.ok (some q), t) ∧ q.dimension = u.dimension ∧
      q.size = Max.max s.settings.sampleCount.size u.size ∧
      ∀ i < q.size, q.inBase i = Sampler.pick (numbers xs) (numbers ws)
        ((Draw.sampleOf RandomSource.uniform s.settings.sampleCount s.source).1.particle i) *
          u.inBase i := by
  let drawn := Draw.sampleOf RandomSource.uniform s.settings.sampleCount s.source
  obtain ⟨q, hq, hdimension, hsize, hparticles⟩ :=
    inUnit_plain hunits hu (.sample (drawn.1.map (Sampler.pick (numbers xs) (numbers ws))))
  have hsample : (sampleIn .one fun _ frame =>
      Sampler.weighted (numbers xs) (numbers ws) frame : Evaluation ℝ S (Quantity ℝ)).run s =
        (.ok ⟨.sample (drawn.1.map (Sampler.pick (numbers xs) (numbers ws))), .one⟩,
          { s with source := drawn.2 }) := by
    rw [sampleIn, run_bind_of_ok (run_get s), run_draw,
      Sampler.weighted_run hweighs (rfl : (frame s .one).count = .ok s.settings.sampleCount)]
    rfl
  refine ⟨q, { s with source := drawn.2 }, ?_, hdimension, ?_, fun i hi => ?_⟩
  · rw [drawWeighted, run_bind_of_ok hsample, run_some_eq_ok, run_withUnits_eq_ok]
    exact ⟨hq, rfl⟩
  · rw [hsize]
    exact congrArg (Max.max · u.size) ((Sample.size_map _ drawn.1).trans (Draw.size_sampleOf _ _ _))
  · rw [hparticles i hi]
    exact congrArg (· * u.inBase i) (Sample.particle_map _ drawn.1 i)

/-- A set that is drawn from is weighed, and the unit behind it can be read. -/
theorem of_run_drawWeighted {s t : Session ℝ S} {xs ws : List (Quantity ℝ)} {unit : Option String}
    {q : Quantity ℝ} (h : (drawWeighted xs ws unit).run s = (.ok (some q), t)) :
    Sampler.Weighs (numbers xs) (numbers ws) ∧ ∃ u, unitBehind s.units unit = .ok u := by
  rw [drawWeighted] at h
  obtain ⟨p, s₁, hsample, h⟩ := run_bind_eq_ok.mp h
  rw [run_some_eq_ok, run_withUnits_eq_ok] at h
  rw [sampleIn, run_bind_of_ok (run_get s), run_draw] at hsample
  obtain ⟨hdrawn, rfl⟩ := Prod.mk.inj hsample
  refine ⟨Sampler.weighted_weighs _ _ _ s.source p _ (Prod.ext hdrawn rfl), ?_⟩
  rcases htext : written? unit with _ | text
  · exact ⟨.plain 1, by simp only [unitBehind, htext]⟩
  · simp only [inUnit, unitBehind, htext] at h ⊢
    rcases hu : unitQuantity s.units text with e | u
    · rw [hu] at h
      cases h.1
    · exact ⟨u, rfl⟩

/-! ## Where the units count -/

/-- Taken in the unit behind the set, every value that can be drawn is a value of the set again: the
first one, and those with a weight. -/
structure ReadsSame (n : SampleCount) (xs ws : List (Quantity ℝ)) (u : Quantity ℝ) : Prop where
  dimension : ∀ x ∈ xs, u.dimension = x.dimension
  inBase : ∀ p x w, xs[p]? = some x → ws[p]? = some w → p = 0 ∨ 0 < w.mean →
    ∀ i < Max.max n.size u.size, ∃ y ∈ xs, x.mean * u.inBase i = y.inBase i

theorem getElem?_numbers {xs : List (Quantity ℝ)} {p : Nat} {x : Quantity ℝ} (h : xs[p]? = some x) :
    (numbers xs)[p]? = some x.mean := by
  rw [numbers, List.getElem?_map, h]
  rfl

omit [RandomSource S ℝ] in
/-- If all that is drawn is a value of the set, whatever the uniform numbers, each value that can be
drawn is. -/
theorem readsSame_of_isOneOf {s : Session ℝ S} (hunits : UnitsSound s.units) {xs ws : List (Quantity ℝ)}
    {unit : Option String} {u : Quantity ℝ} (hweighs : Sampler.Weighs (numbers xs) (numbers ws))
    (hu : unitBehind s.units unit = .ok u)
    (h : ∀ t : Session ℝ SteadySource, t.settings = s.settings → t.units = s.units →
      ∀ q, ((drawWeighted xs ws unit).run t).1 = .ok (some q) → q.IsOneOf xs) :
    ReadsSame s.settings.sampleCount xs ws u := by
  -- the same session, with one uniform number for all particles
  have hdrawn : ∀ c : Set.Ico (0 : ℝ) 1, ∃ q : Quantity ℝ, q.IsOneOf xs ∧ q.dimension = u.dimension ∧
      q.size = Max.max s.settings.sampleCount.size u.size ∧
      ∀ i < q.size, q.inBase i = Sampler.pick (numbers xs) (numbers ws) c * u.inBase i := by
    intro c
    let t : Session ℝ SteadySource := { Session.ofSource s.settings ⟨c, 0⟩ with units := s.units }
    obtain ⟨q, t', hrun, hdimension, hsize, hparticles⟩ := run_drawWeighted (s := t) hunits hweighs hu
    refine ⟨q, h t rfl rfl q (congrArg Prod.fst hrun), hdimension, hsize, fun i hi => ?_⟩
    rw [hparticles i hi, SteadySource.particle_sampleOf]
    rfl
  constructor
  · intro x hx
    obtain ⟨q, hq, hdimension, -⟩ := hdrawn ⟨0, le_rfl, one_pos⟩
    rw [← hdimension, hq.dimension x hx]
  · intro p x w hx hw hpick i hi
    obtain ⟨c, hc, hplace⟩ :=
      (Sampler.picking_nonempty_iff hweighs.nonneg hweighs.positive (getElem?_numbers hw)).mpr hpick
    obtain ⟨q, hq, -, hsize, hparticles⟩ := hdrawn ⟨c, hc⟩
    rw [← hsize] at hi
    obtain ⟨y, hy, hbase⟩ := hq.inBase i hi
    refine ⟨y, hy, ?_⟩
    rw [← hbase, hparticles i hi, Sampler.pick_eq hplace (getElem?_numbers hx)]

/-- If each value that can be drawn is a value of the set again, so is all that is drawn. -/
theorem isOneOf_of_readsSame (hsource : DrawsUniform S) {s : Session ℝ S} (hunits : UnitsSound s.units)
    {xs ws : List (Quantity ℝ)} {unit : Option String} {u : Quantity ℝ}
    (hweighs : Sampler.Weighs (numbers xs) (numbers ws)) (hu : unitBehind s.units unit = .ok u)
    (h : ReadsSame s.settings.sampleCount xs ws u) {q : Quantity ℝ}
    (hq : ((drawWeighted xs ws unit).run s).1 = .ok (some q)) : q.IsOneOf xs := by
  obtain ⟨r, t, hrun, hdimension, hsize, hparticles⟩ := run_drawWeighted hunits hweighs hu
  rw [hrun] at hq
  obtain rfl : r = q := Option.some.inj (Except.ok.inj hq)
  refine ⟨fun x hx => hdimension.trans (h.dimension x hx), fun i hi => ?_⟩
  rw [hparticles i hi]
  set c := (Draw.sampleOf RandomSource.uniform s.settings.sampleCount s.source).1.particle i with hc
  have hunit : c ∈ Set.Ico (0 : ℝ) 1 := Draw.mem_sampleOf hsource _ _ _ (Sample.particle_mem _ i)
  obtain ⟨p, hp, hbelow, habove⟩ := Sampler.exists_place hweighs.positive hunit.2
  have hplace := Sampler.pickPlace_eq hweighs.nonneg hp hbelow habove
  -- the place that is picked has a value and a weight
  have hlength : xs.length = ws.length := by simpa [numbers] using hweighs.length
  have hweight : p < ws.length := by simpa [numbers] using hp
  have hvalue : p < xs.length := hlength ▸ hweight
  have hx : xs[p]? = some xs[p] := List.getElem?_eq_getElem hvalue
  have hw : ws[p]? = some ws[p] := List.getElem?_eq_getElem hweight
  have hpick := (Sampler.picking_nonempty_iff hweighs.nonneg hweighs.positive (getElem?_numbers hw)).mp
    ⟨c, hunit, hplace⟩
  rw [Sampler.pick_eq hplace (getElem?_numbers hx)]
  exact h.inBase p _ _ hx hw hpick i (hsize ▸ hi)

/-- What evaluating some nodes leaves of a session is sound. -/
theorem unitsSound_of_evaluateAll {s t : Session ℝ S} (hs : s.Stores .canonical s.settings)
    {nodes : List Node} {r : Except (Fault ℝ) (List (Quantity ℝ))}
    (h : (evaluateAll (evaluateWithin callLimit) [] nodes).run s = (r, t)) :
    t.Stores .canonical s.settings := by
  have hkept := (UnitClass.contract_holds.evaluateAll_keeps
    (UnitClass.contract_holds.evaluateWithin_keeps callLimit) nodes Contract.framed_nil s hs).2
  rw [h] at hkept
  exact hkept

/-- **Units in weighted sets.** A weighted set whose values and weights have been evaluated is drawn from
exactly if the numbers of the weights allow it and the unit behind it can be read; whatever the units of
the values. The result has the dimension of the unit behind it, and each of its particles, in base
units, is the number of one of the values times that unit. So it is one of the values, in their own
units, from every source of uniform numbers exactly if each value that can be drawn is a value of the
set again when its number is taken in the unit behind the set. -/
theorem weightedSet_isOneOf_iff {s : Session ℝ S} (hs : Reachable s) {values weights : List Node}
    (unit : Option String) {xs ws : List (Quantity ℝ)} {s₁ s₂ : Session ℝ S}
    (hvalues : (evaluateAll (evaluateWithin callLimit) [] values).run s = (.ok xs, s₁))
    (hweights : (evaluateAll (evaluateWithin callLimit) [] weights).run s₁ = (.ok ws, s₂)) :
    outcome (.weightedSet values weights unit) s = ((drawWeighted xs ws unit).run s₂).1 ∧
    ((∃ q, outcome (.weightedSet values weights unit) s = .ok (some q)) ↔
      Sampler.Weighs (numbers xs) (numbers ws) ∧ ∃ u, unitBehind s₂.units unit = .ok u) ∧
    (∀ q, outcome (.weightedSet values weights unit) s = .ok (some q) →
      ∃ u, unitBehind s₂.units unit = .ok u ∧ q.dimension = u.dimension ∧
        ∀ i < q.size, ∃ x ∈ xs, q.inBase i = x.mean * u.inBase i) ∧
    ∀ u, Sampler.Weighs (numbers xs) (numbers ws) → unitBehind s₂.units unit = .ok u →
      ((∀ (T : Type) [RandomSource T ℝ], DrawsUniform T → ∀ t : Session ℝ T,
        t.settings = s₂.settings → t.units = s₂.units →
          ∀ q, ((drawWeighted xs ws unit).run t).1 = .ok (some q) → q.IsOneOf xs) ↔
        ReadsSame s₂.settings.sampleCount xs ws u) := by
  have hunits : UnitsSound s₂.units := by
    have hfirst := unitsSound_of_evaluateAll hs.sound.2 hvalues
    have hsecond := unitsSound_of_evaluateAll (hfirst.settings ▸ hfirst) hweights
    exact fun name q hq => UnitClass.val_canonical.mp (hsecond.units name q hq)
  have hrun : outcome (.weightedSet values weights unit) s = ((drawWeighted xs ws unit).run s₂).1 := by
    rw [outcome, evaluateTree, evaluateWithin, run_weightedSet unit hvalues hweights]
  refine ⟨hrun, ⟨?_, ?_⟩, ?_, fun u hweighs hu => ⟨fun h => ?_, fun h => ?_⟩⟩
  · rintro ⟨q, hq⟩
    exact of_run_drawWeighted (Prod.ext (hrun.symm.trans hq) rfl)
  · rintro ⟨hweighs, u, hu⟩
    obtain ⟨q, t, hdrawn, -⟩ := run_drawWeighted hunits hweighs hu
    exact ⟨q, by rw [hrun, hdrawn]⟩
  · intro q hq
    obtain ⟨hweighs, u, hu⟩ := of_run_drawWeighted (Prod.ext (hrun.symm.trans hq) rfl)
    obtain ⟨r, t, hdrawn, hdimension, -, hparticles⟩ := run_drawWeighted hunits hweighs hu
    rw [hrun, hdrawn] at hq
    obtain rfl : r = q := Option.some.inj (Except.ok.inj hq)
    refine ⟨u, hu, hdimension, fun i hi => ?_⟩
    obtain ⟨x, hx, hmean⟩ := List.mem_map.mp (Sampler.pick_mem hweighs.nonempty (numbers ws) _)
    exact ⟨x, hx, (hparticles i hi).trans (congrArg (· * u.inBase i) hmean.symm)⟩
  · exact readsSame_of_isOneOf hunits hweighs hu (h SteadySource SteadySource.drawsUniform)
  · intro T _ hsource t hsettings hsame q hq
    rw [← hsame] at hunits hu
    rw [← hsettings] at h
    exact isOneOf_of_readsSame hsource hunits hweighs hu h hq

/-! ## Two kilometres -/

/-- The set `{2 km: 1}`. -/
def onlyTwoKilometres : Node :=
  .weightedSet [.number ⟨false, 2, 0⟩ (some "km")] [.number ⟨false, 1, 0⟩ none] none

/-- Two kilometres, as the value of the set. -/
noncomputable def twoKilometres : Quantity ℝ :=
  ⟨.scalar ((Decimal.value ⟨false, 2, 0⟩ : Rat) : ℝ), kilometres⟩

/-- One, as its weight. -/
noncomputable def weightOne : Quantity ℝ :=
  ⟨.scalar ((Decimal.value ⟨false, 1, 0⟩ : Rat) : ℝ), .one⟩

theorem run_evaluateAll_single {node : Node} {q : Quantity ℝ} {s t : Session ℝ S}
    (h : (required node (evaluateNode (evaluateWithin callLimit) [] node)).run s = (.ok q, t)) :
    (evaluateAll (evaluateWithin callLimit) [] [node]).run s = (.ok [q], t) := by
  rw [evaluateAll, run_bind_of_ok h, evaluateAll]
  rfl

theorem run_twoKilometres : (evaluateAll (evaluateWithin callLimit) []
    [.number ⟨false, 2, 0⟩ (some "km")]).run atLowEnd = (.ok [twoKilometres], atLowEnd) :=
  run_evaluateAll_single ((Writes.withUnit _ scaleFree_kilometres).run _)

theorem run_weightOne : (evaluateAll (evaluateWithin callLimit) []
    [.number ⟨false, 1, 0⟩ none]).run atLowEnd = (.ok [weightOne], atLowEnd) :=
  run_evaluateAll_single ((Writes.plain _).run _)

theorem weighs_twoKilometres : Sampler.Weighs (numbers [twoKilometres]) (numbers [weightOne]) := by
  have hone : weightOne.mean = 1 := by
    rw [weightOne, mean_scalar, (by decide : Decimal.value ⟨false, 1, 0⟩ = 1), Rat.cast_one]
  refine ⟨List.cons_ne_nil _ _, rfl, ?_, ?_⟩
  · simp [numbers, hone]
  · simp [numbers, hone]

theorem plain_ne_kilometres : (Quantity.plain (1 : ℝ)).dimension ≠ twoKilometres.dimension := by
  decide +kernel

/-- Drawing from two kilometres succeeds, but what is drawn is not always one of the values. -/
theorem onlyTwoKilometres_drawn :
    (∃ q, outcome onlyTwoKilometres atLowEnd = .ok (some q)) ∧
      ¬∀ (T : Type) [RandomSource T ℝ], DrawsUniform T → ∀ t : Session ℝ T,
        t.settings = threeParticles → t.units = .empty →
          ∀ q, ((drawWeighted [twoKilometres] [weightOne] none).run t).1 = .ok (some q) →
            q.IsOneOf [twoKilometres] := by
  obtain ⟨-, hsucceeds, -, hiff⟩ := weightedSet_isOneOf_iff reachable_atLowEnd none run_twoKilometres
    run_weightOne
  refine ⟨hsucceeds.mpr ⟨weighs_twoKilometres, .plain 1, rfl⟩, fun hall => ?_⟩
  have hreads := (hiff (.plain 1) weighs_twoKilometres rfl).mp hall
  exact plain_ne_kilometres (hreads.dimension _ List.mem_cons_self)

/-- What is drawn from two kilometres has no unit. -/
theorem onlyTwoKilometres_unitless :
    ∃ q, outcome onlyTwoKilometres atLowEnd = .ok (some q) ∧ q.dimension = .one ∧
      ¬q.IsOneOf [twoKilometres] := by
  obtain ⟨q, t, hrun, hdimension, -⟩ := run_drawWeighted (s := atLowEnd) unitsSound_empty
    weighs_twoKilometres (show unitBehind .empty none = .ok (.plain 1) from rfl)
  refine ⟨q, ?_, hdimension, fun hone => ?_⟩
  · rw [outcome, evaluateTree, evaluateWithin, onlyTwoKilometres,
      run_weightedSet none run_twoKilometres run_weightOne, hrun]
  · exact plain_ne_kilometres (hdimension.symm.trans (hone.dimension _ List.mem_cons_self))

end Session

end Ballpark
