import Ballpark.Proofs.ScoreTerms

/-!
# Scores in other units

A score does not depend on the units that the forecast and the observation are written in. A change of
the forecast's unit multiplies its particles by a factor, and the observation, which is brought into the
unit of the forecast whatever its own was, by the same one. On the plain scale the factor comes out of
every distance; a logarithm turns it into a shift of both numbers, which their distance does not see
(`Score.Scale.distance_mul`). The terms of a score are means of such distances, so they are stretched
alike (`Score.components_convert`), and the unit of a plain score takes the factor back.

Neither does it depend on units whether there is a score: dimensions and signs are those of the numbers
in base units (`Score.comparable_convert`).
-/

namespace Ballpark

open Finset (range)

/-- A quantity in another unit of its dimension. -/
noncomputable def Quantity.writtenIn (q : Quantity ℝ) (u : CompoundUnit ℝ) : Quantity ℝ :=
  ⟨q.value.map (· * (q.unit.size / u.size)), u⟩

theorem Quantity.particle_writtenIn (q : Quantity ℝ) (u : CompoundUnit ℝ) (i : Nat) :
    (q.writtenIn u).value.particle i = q.value.particle i * (q.unit.size / u.size) :=
  Value.particle_map _ _ _

namespace Score

/-- The terms of a score, both multiplied by a factor. -/
noncomputable def Components.times (c : Components ℝ) (k : ℝ) : Components ℝ :=
  ⟨c.reliability.map (· * k), c.resolution * k⟩

/-! ## One factor for both sides -/

namespace Scale

/-- What distances on a scale are multiplied by when both numbers are: those of logarithms stay. -/
def stretch : Scale → ℝ → ℝ
  | plain, k => k
  | log, _ | decibel, _ => 1

/-- **A factor of both numbers** comes out of their distance, or does not show in it. -/
theorem distance_mul {scale : Scale} {x y k : ℝ} (hk : 0 < k) (h : scale = plain ∨ 0 < x ∧ 0 < y) :
    |scale.apply (x * k) - scale.apply (y * k)| = |scale.apply x - scale.apply y| * scale.stretch k := by
  cases scale with
  | plain => rw [apply, apply, apply, apply, stretch, ← sub_mul, abs_mul, abs_of_pos hk]
  | log =>
    obtain ⟨hx, hy⟩ := h.resolve_left Scale.noConfusion
    have hshift : ∀ z : ℝ, 0 < z → log.apply (z * k) = log.apply z + Real.log k :=
      fun z hz => Real.log_mul hz.ne' hk.ne'
    rw [hshift x hx, hshift y hy, add_sub_add_right_eq_sub, stretch, mul_one]
  | decibel =>
    obtain ⟨hx, hy⟩ := h.resolve_left Scale.noConfusion
    have hshift : ∀ z : ℝ, 0 < z → decibel.apply (z * k) = decibel.apply z + 10 * Real.logb 10 k := by
      intro z hz
      have hlog : Real.logb 10 (z * k) = Real.logb 10 z + Real.logb 10 k := Real.logb_mul hz.ne' hk.ne'
      have happly : ∀ w : ℝ, decibel.apply w = 10 * Real.logb 10 w := fun w => by simp [apply, Scalar.apply,
        RealNumber.apply]
      rw [happly, happly, hlog, mul_add]
    rw [hshift x hx, hshift y hy, add_sub_add_right_eq_sub, stretch, mul_one]

end Scale

/-! ## What has a score -/

theorem Scale.transform_refused {scale : Scale} (hscale : scale ≠ .plain) {v : Value ℝ} {i : Nat}
    (h : v.particle i ≤ 0) : ∃ x, scale.transform v = .error (.notPositive scale.name x) := by
  have hfound : (v.particles.toList.find? fun x => Scalar.le x (Scalar.ofNat 0)).isSome = true := by
    refine List.find?_isSome.mpr ⟨v.particle i, v.particles.particle_mem i, ?_⟩
    simpa using h
  obtain ⟨x, hx⟩ := Option.isSome_iff_exists.mp hfound
  cases scale with
  | plain => exact absurd rfl hscale
  | log | decibel => exact ⟨x, by simp only [transform, hx]⟩

/-- A forecast and an observation that have a score: of one dimension, and above zero where a logarithm
is taken. -/
def Comparable (scale : Scale) (forecast observation : Quantity ℝ) : Prop :=
  observation.dimension = forecast.dimension ∧ (scale = .plain ∨
    (∀ i, 0 < forecast.value.particle i) ∧ ∀ i, 0 < observation.value.particle i)

section

variable {scale : Scale} {forecast observation : Quantity ℝ}

/-- Two dimensions are no matter of numbers. -/
theorem components_of_ne (h : observation.dimension ≠ forecast.dimension) :
    ∃ clash, components scale forecast observation = .error (.units clash) := by
  have hdiffer : forecast.unit.sameDimension observation.unit = false := by
    rw [← Bool.not_eq_true, CompoundUnit.sameDimension_iff]
    exact fun hsame => h hsame.symm
  rw [components, hdiffer]
  exact ⟨_, rfl⟩

/-- A particle that has no logarithm is refused, on whichever side it is. -/
theorem components_of_nonpositive (hforecast : forecast.unit.Known) (hobservation : observation.unit.Known)
    (hdimension : observation.dimension = forecast.dimension) (hscale : scale ≠ .plain)
    (h : ¬((∀ i, 0 < forecast.value.particle i) ∧ ∀ i, 0 < observation.value.particle i)) :
    ∃ x, components scale forecast observation = .error (.notPositive scale.name x) := by
  have hsame : forecast.unit.sameDimension observation.unit = true :=
    CompoundUnit.sameDimension_iff.mpr hdimension.symm
  have hratio := div_pos hobservation.size_pos hforecast.size_pos
  simp only [components, hsame, Quantity.convert_eq hobservation hforecast hdimension, bind, Except.bind]
  by_cases hpositive : ∀ i, 0 < forecast.value.particle i
  · -- the forecast is transformed first, so its particles must do before those of the observation count
    obtain ⟨i, hi⟩ := not_forall.mp (not_and.mp h hpositive)
    have hi' : (observation.value.map
        (· * (observation.unit.size / forecast.unit.size))).particle i ≤ 0 := by
      rw [Value.particle_map]
      exact mul_nonpos_of_nonpos_of_nonneg (not_lt.mp hi) hratio.le
    obtain ⟨x, hx⟩ := Scale.transform_refused hscale hi'
    refine ⟨x, ?_⟩
    rw [Scale.transform_eq (.inr hpositive)]
    simp only [hx]
    rfl
  · obtain ⟨i, hi⟩ := not_forall.mp hpositive
    obtain ⟨x, hx⟩ := Scale.transform_refused hscale (not_lt.mp hi)
    refine ⟨x, ?_⟩
    rw [hx]
    rfl

/-! ## In other units -/

variable {u v : CompoundUnit ℝ}

theorem comparable_convert (hforecast : forecast.unit.Known) (hobservation : observation.unit.Known)
    (hu : u.Known) (hv : v.Known) (hdimension : forecast.dimension = u.dimension)
    (hdimension' : observation.dimension = v.dimension) :
    Comparable scale (forecast.writtenIn u) (observation.writtenIn v) ↔
      Comparable scale forecast observation := by
  have hsign : ∀ {q : Quantity ℝ} {w : CompoundUnit ℝ}, q.unit.Known → w.Known →
      ((∀ i, 0 < (q.writtenIn w).value.particle i) ↔ ∀ i, 0 < q.value.particle i) := by
    intro q w hq hw
    refine forall_congr' fun i => ?_
    rw [Quantity.particle_writtenIn]
    exact mul_pos_iff_of_pos_right (div_pos hq.size_pos hw.size_pos)
  rw [Comparable, Comparable, hsign hforecast hu, hsign hobservation hv, hdimension, hdimension']
  rfl

/-- **The terms of a score in another unit** of the forecast are the terms, stretched by what the unit
is smaller; the unit of the observation does not matter. -/
theorem components_convert (hforecast : forecast.unit.Known) (hobservation : observation.unit.Known)
    (hu : u.Known) (hv : v.Known) (hdimension : forecast.dimension = u.dimension)
    (hdimension' : observation.dimension = v.dimension)
    (hcomparable : Comparable scale forecast observation) :
    ∃ c, components scale forecast observation = .ok c ∧
      components scale (forecast.writtenIn u) (observation.writtenIn v) =
        .ok (c.times (scale.stretch (forecast.unit.size / u.size))) := by
  have hcomparable' := (comparable_convert hforecast hobservation hu hv hdimension hdimension').mpr hcomparable
  have hk := div_pos hforecast.size_pos hu.size_pos
  have hratio := div_pos hobservation.size_pos hforecast.size_pos
  -- the observation has one way into the new unit, past its own new unit or not
  have hway : ∀ y : ℝ, y * (observation.unit.size / v.size) * (v.size / u.size) =
      y * (observation.unit.size / forecast.unit.size) * (forecast.unit.size / u.size) := by
    intro y
    have := hv.size_pos.ne'
    have := hforecast.size_pos.ne'
    field_simp
  have hboth : ∀ i j, |scale.apply (forecast.value.particle i * (forecast.unit.size / u.size)) -
      scale.apply (observation.value.particle j * (observation.unit.size / v.size) * (v.size / u.size))| =
      |scale.apply (forecast.value.particle i) -
        scale.apply (observation.value.particle j * (observation.unit.size / forecast.unit.size))| *
        scale.stretch (forecast.unit.size / u.size) := by
    intro i j
    rw [hway, Scale.distance_mul hk]
    exact hcomparable.2.imp_right fun h => ⟨h.1 i, mul_pos (h.2 j) hratio⟩
  have hamong : ∀ i j, |scale.apply (forecast.value.particle i * (forecast.unit.size / u.size)) -
      scale.apply (forecast.value.particle j * (forecast.unit.size / u.size))| =
      |scale.apply (forecast.value.particle i) - scale.apply (forecast.value.particle j)| *
        scale.stretch (forecast.unit.size / u.size) :=
    fun i j => Scale.distance_mul hk (hcomparable.2.imp_right fun h => ⟨h.1 i, h.1 j⟩)
  refine ⟨_, components_eq_mean_distances scale hforecast hobservation hcomparable.1 hcomparable.2, ?_⟩
  have hforecast' : (forecast.writtenIn u).unit.Known := hu
  have hobservation' : (observation.writtenIn v).unit.Known := hv
  rw [components_eq_mean_distances scale hforecast' hobservation' hcomparable'.1 hcomparable'.2]
  have hsize : (forecast.writtenIn u).size = forecast.size := Value.size_map _ _
  have hunit : (forecast.writtenIn u).unit = u := rfl
  simp only [hsize, hunit, Quantity.particle_writtenIn, hamong, Components.times, Value.map_map]
  congr 2
  · rw [Quantity.writtenIn, Value.map_map]
    refine Value.map_congr fun j => ?_
    simp only [Function.comp, hboth, ← Finset.sum_mul]
    rw [mul_assoc]
  · simp only [← Finset.sum_mul, mul_assoc]

/-! ## The nine scores -/

/-- The part of a score that is asked for. -/
noncomputable def Components.part (c : Components ℝ) : Part → Value ℝ
  | .score => c.score
  | .reliability => c.reliability
  | .resolution => .scalar c.resolution

theorem Components.part_times (c : Components ℝ) (k : ℝ) (part : Part) :
    (c.times k).part part = (c.part part).map (· * k) := by
  cases part with
  | score =>
    refine (Value.map_map _ _ _).trans (Eq.trans ?_ (Value.map_map _ _ _).symm)
    exact Value.map_congr fun i => (sub_mul _ _ _).symm
  | reliability => rfl
  | resolution => rfl

/-- The unit of a score: that of the forecast, but none on a logarithmic scale. -/
def Scale.unitOf : Scale → CompoundUnit ℝ → CompoundUnit ℝ
  | .plain, u => u
  | .log, _ | .decibel, _ => .one

theorem evaluate_of_components {c : Components ℝ} (h : components scale forecast observation = .ok c)
    (part : Part) :
    evaluate scale part forecast observation = .ok ⟨c.part part, scale.unitOf forecast.unit⟩ := by
  rw [evaluate.eq_def, h]
  cases scale <;> cases part <;> rfl

theorem evaluate_of_error {e : Fault ℝ} (h : components scale forecast observation = .error e)
    (part : Part) : evaluate scale part forecast observation = .error e := by
  rw [evaluate.eq_def, h]
  rfl

/-- What has no score is refused for its dimensions or for a particle without a logarithm. -/
theorem evaluate_of_not_comparable (hforecast : forecast.unit.Known) (hobservation : observation.unit.Known)
    (h : ¬Comparable scale forecast observation) (part : Part) :
    ∃ e : Fault ℝ, evaluate scale part forecast observation = .error e ∧
      e.kind = if observation.dimension = forecast.dimension then .nonPositive else .incompatibleUnits := by
  by_cases hdimension : observation.dimension = forecast.dimension
  · obtain ⟨hscale, hpositive⟩ := not_or.mp (not_and.mp h hdimension)
    obtain ⟨x, hx⟩ := components_of_nonpositive hforecast hobservation hdimension hscale hpositive
    exact ⟨_, evaluate_of_error hx part, (if_pos hdimension).symm⟩
  · obtain ⟨clash, hclash⟩ : ∃ clash, components scale forecast observation = .error (.units clash) :=
      components_of_ne hdimension
    exact ⟨_, evaluate_of_error hclash part, (if_neg hdimension).symm⟩

end

/-- Results of a score that are the same. -/
inductive SameScore : Scale → Except (Fault ℝ) (Quantity ℝ) → Except (Fault ℝ) (Quantity ℝ) → Prop
  /-- no score, for the same sort of reason -/
  | refused {scale : Scale} {e f : Fault ℝ} (h : e.kind = f.kind) : SameScore scale (.error e) (.error f)
  /-- a plain score: the same quantity, maybe in another unit -/
  | plain {q r : Quantity ℝ} (hdimension : q.dimension = r.dimension) (hscalar : q.isScalar = r.isScalar)
    (hsize : q.size = r.size) (hbase : ∀ i, q.inBase i = r.inBase i) : SameScore .plain (.ok q) (.ok r)
  /-- a score of logarithms: the same numbers, without a unit -/
  | logarithmic {scale : Scale} {x : Value ℝ} (h : scale ≠ .plain) :
    SameScore scale (.ok ⟨x, .one⟩) (.ok ⟨x, .one⟩)

theorem Scale.stretch_of_ne {scale : Scale} (h : scale ≠ .plain) (k : ℝ) : scale.stretch k = 1 := by
  cases scale with
  | plain => exact absurd rfl h
  | log | decibel => rfl

theorem Scale.unitOf_of_ne {scale : Scale} (h : scale ≠ .plain) (u : CompoundUnit ℝ) :
    scale.unitOf u = .one := by
  cases scale with
  | plain => exact absurd rfl h
  | log | decibel => rfl

/-- **Scores do not depend on units.** A forecast and an observation can be written in any known units of
their dimensions. Each of the nine scores is the same then: it exists in the new units exactly if it does in
the old ones, which is if the two are comparable; a plain score has the same dimension and the same numbers
in base units, and a score of logarithms is the same plain number. -/
theorem evaluate_in_any_units (scale : Scale) (part : Part) {forecast observation : Quantity ℝ}
    {u v : CompoundUnit ℝ} (hforecast : forecast.unit.Known) (hobservation : observation.unit.Known)
    (hu : u.Known) (hv : v.Known) (hdimension : forecast.dimension = u.dimension)
    (hdimension' : observation.dimension = v.dimension) :
    ∃ f o, forecast.convert u = .ok f ∧ observation.convert v = .ok o ∧
      ((∃ q, evaluate scale part forecast observation = .ok q) ↔
        Comparable scale forecast observation) ∧
      SameScore scale (evaluate scale part forecast observation) (evaluate scale part f o) := by
  have hsame : Comparable scale (forecast.writtenIn u) (observation.writtenIn v) ↔
      Comparable scale forecast observation :=
    comparable_convert hforecast hobservation hu hv hdimension hdimension'
  refine ⟨_, _, Quantity.convert_eq hforecast hu hdimension, Quantity.convert_eq hobservation hv hdimension',
    ?_⟩
  by_cases hcomparable : Comparable scale forecast observation
  · obtain ⟨c, hc, hc'⟩ := components_convert hforecast hobservation hu hv hdimension hdimension' hcomparable
    have hold := evaluate_of_components hc part
    have hnew := evaluate_of_components hc' part
    refine ⟨⟨fun _ => hcomparable, fun _ => ⟨_, hold⟩⟩, ?_⟩
    rw [Components.part_times] at hnew
    rw [hold]
    refine hnew ▸ ?_
    -- a plain score is stretched with its unit, and a score of logarithms is not
    by_cases hscale : scale = .plain
    · subst hscale
      refine .plain hdimension (Value.isScalar_map _ _).symm (Value.size_map _ _).symm fun i => ?_
      have hpos := hu.size_pos.ne'
      rw [Quantity.inBase_mk, Quantity.inBase_mk, Value.particle_map, mul_assoc]
      congr 1
      exact (div_mul_cancel₀ _ hpos).symm
    · have hself : (c.part part).map (· * (1 : ℝ)) = c.part part :=
        (Value.map_congr fun _ => mul_one _).trans (Value.map_id _)
      rw [Scale.stretch_of_ne hscale, Scale.unitOf_of_ne hscale, Scale.unitOf_of_ne hscale, hself]
      exact .logarithmic hscale
  · -- not comparable in one pair of units, nor in the other, and for the same reason
    obtain ⟨e, he, hkind⟩ := evaluate_of_not_comparable hforecast hobservation hcomparable part
    have hforecast' : (forecast.writtenIn u).unit.Known := hu
    have hobservation' : (observation.writtenIn v).unit.Known := hv
    obtain ⟨e', he', hkind'⟩ := evaluate_of_not_comparable hforecast' hobservation'
      (mt hsame.mp hcomparable) part
    refine ⟨⟨fun ⟨q, hq⟩ => ?_, fun h => absurd h hcomparable⟩, ?_⟩
    · rw [he] at hq
      cases hq
    · rw [he]
      refine he' ▸ .refused (hkind.trans (Eq.trans ?_ hkind'.symm))
      have hdimensions : (observation.writtenIn v).dimension = (forecast.writtenIn u).dimension ↔
          observation.dimension = forecast.dimension := by
        rw [hdimension, hdimension']
        rfl
      simp only [hdimensions]

/-- One or two kilometres against 1500 metres, and the same lengths in metres and in kilometres. -/
theorem log_score_of_lengths :
    let metre := UnitMeaning.entry (.base
      ⟨"meter", ["m", "metre"], ["meters", "metres"], [(.length, 1)], .exact 1, true⟩)
    let kilometre := UnitMeaning.entry (.withPrefix ⟨"kilo", "k", 3⟩
      ⟨"meter", ["m", "metre"], ["meters", "metres"], [(.length, 1)], .exact 1, true⟩)
    let forecast := Quantity.named (.sample ⟨1, [2]⟩) "km" kilometre
    let observation := Quantity.named (.scalar 1500) "m" metre
    ∃ f o q, forecast.convert observation.unit = .ok f ∧ observation.convert forecast.unit = .ok o ∧
      evaluate .log .score forecast observation = .ok q ∧ evaluate .log .score f o = .ok q := by
  intro metre kilometre forecast observation
  have hforecast : forecast.Sound := Quantity.sound_named
    (by decide +kernel : UnitName.resolve? "km" = some ⟨kilometre, none, "km"⟩) (by decide +kernel) _
  have hobservation : observation.Sound := Quantity.sound_named
    (by decide +kernel : UnitName.resolve? "m" = some ⟨metre, none, "m"⟩) (by decide +kernel) _
  obtain ⟨f, o, hf, ho, hscored, hsame⟩ := evaluate_in_any_units .log .score hforecast.known
    hobservation.known hobservation.known hforecast.known rfl rfl
  have hpositive : ∀ i, 0 < forecast.value.particle i := by
    intro i
    have hall : ∀ x ∈ forecast.value.particles.toList, (0 : ℝ) < x := by
      simp [forecast, Quantity.named, Value.particles, Sample.toList]
    exact hall _ (Sample.particle_mem _ i)
  obtain ⟨q, hq⟩ := hscored.mpr ⟨rfl, .inr ⟨hpositive, fun i => by simp [observation, Quantity.named]⟩⟩
  rw [hq] at hsame
  rcases hnew : evaluate .log .score f o with e | r
  · rw [hnew] at hsame
    cases hsame
  · rw [hnew] at hsame
    cases hsame
    exact ⟨f, o, _, hf, ho, hq, hnew⟩

end Score

end Ballpark
