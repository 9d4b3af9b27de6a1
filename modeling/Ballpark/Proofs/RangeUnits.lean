import Ballpark.Proofs.Mean
import Ballpark.Proofs.SoundSession

/-!
# A unit behind a bound, or behind a range

The unit of a range of two literals may be attached to the second of them or trail the range, and
either way it is meant for both bounds. A trailing unit multiplies both bounds by its scale
(`RangeForm.bounds_trailing`). An attached one is multiplied into the second bound only, and the first
is then taken to be in the same unit; only a counting word behind the upper bound of `low to high` is
carried over to the lower bound (`RangeForm.bounds_attached`).

So the two forms agree only where the scale does not matter, and `Session.attached_agrees_iff` says
where: the first bound is zero, or the scale is one, or it is that of a counting word in `low to high`,
or both forms are refused. Everywhere else a random source tells them apart, one whose numbers lie at
the lower end of the interval, for there each form gives back its own first bound.
-/

namespace Ballpark

open Session Evaluation

/-- The forms of a range. -/
inductive RangeForm where
  /-- `low to high` -/
  | interval
  /-- `low .. high` -/
  | uniform
  /-- `middle +- width` -/
  | normal
  deriving DecidableEq

namespace RangeForm

/-- The node of a form. -/
def node : RangeForm → Node → Node → Option String → Node
  | interval => .range
  | uniform => .uniformRange
  | normal => .normalRange

/-- The range of two literals, the second of which has the unit. -/
def attached (form : RangeForm) (a b : Decimal) (unit : String) : Node :=
  form.node (.number a none) (.number b (some unit)) none

/-- The range of two plain literals with the unit behind it. -/
def trailing (form : RangeForm) (a b : Decimal) (unit : String) : Node :=
  form.node (.number a none) (.number b none) (some unit)

/-- The bounds that a form computes. -/
noncomputable def bounds (form : RangeForm) (units : Bindings (Quantity ℝ)) (second : Node)
    (x y : Quantity ℝ) (unit : Option String) : Except (Fault ℝ) (Bounds ℝ) :=
  match form with
  | interval => strictBounds units second x y unit
  | uniform => looseBounds units x y true unit
  | normal => looseBounds units x y false unit

variable {S : Type} [RandomSource S ℝ]

/-- The sampler of a form. -/
noncomputable def sampler (form : RangeForm) (x y : ℝ) (confidence : Written ℝ)
    (frame : SampleFrame ℝ) : Draw ℝ S (Quantity ℝ) :=
  match form with
  | interval => Sampler.interval x y confidence frame
  | uniform => Sampler.uniform x y frame
  | normal => Sampler.normal (x - y) (x + y) confidence frame

theorem evaluateNode_node (form : RangeForm) (body : TreeEvaluation ℝ S) (F : Frames ℝ)
    (first second : Node) (unit : Option String) :
    evaluateNode body F (form.node first second unit) = (do
      let x ← required first (evaluateNode body F first)
      let y ← required second (evaluateNode body F second)
      let b ← withUnits (form.bounds · second x y unit)
      some <$> sampleIn b.unit (form.sampler b.low b.high)) := by
  cases form with
  | interval =>
    rw [node, evaluateNode]
    rfl
  | uniform =>
    rw [node, evaluateNode]
    rfl
  | normal =>
    rw [node, evaluateNode]
    rfl

/-! ## The bounds -/

/-- Is a unit text a counting word? -/
def IsCount (unit : String) : Prop :=
  (Vocabulary.countingWord? (Text.trimText unit)).isSome = true

instance (unit : String) : Decidable (IsCount unit) :=
  inferInstanceAs (Decidable (_ = true))

/-- What becomes of the first bound when the unit is attached to the second. -/
noncomputable def firstBound (form : RangeForm) (unit : String) (a scale : ℝ) : ℝ :=
  if form = interval ∧ IsCount unit then a * scale else a

end RangeForm

namespace Session

/-- A bound in its own unit. -/
theorem boundIn_self {q : Quantity ℝ} (hq : q.Sound) (hunit : q.hasUnit = true) (scale : ℝ) :
    boundIn q.unit scale q = .ok q.mean := by
  have hratio : q.unit.size / q.unit.size = 1 := div_self hq.known.size_pos.ne'
  rw [boundIn, if_pos hunit, Quantity.convert_eq hq.known hq.known rfl, hratio]
  simp only [bind, Except.bind, pure, Except.pure]
  rw [Quantity.mean_map_mul q.value q.unit q.unit 1, mul_one]

/-- A bound without a unit. -/
theorem boundIn_plain (unit : CompoundUnit ℝ) (scale : ℝ) {q : Quantity ℝ} (hunit : q.hasUnit = false) :
    boundIn unit scale q = .ok (q.mean * scale) := by
  rw [boundIn, hunit]
  rfl

theorem hasUnit_plain (x : ℝ) : (Quantity.plain x).hasUnit = false := by
  have hplain : (CompoundUnit.one : CompoundUnit ℝ).isPlain = true :=
    CompoundUnit.isPlain_iff_dimension.mpr rfl
  rw [Quantity.hasUnit, Quantity.plain, hplain]
  rfl

theorem eq_one_of_plain {q : Quantity ℝ} (hq : q.Sound) (hunit : q.hasUnit = false) :
    q.unit = .one :=
  hq.canonical.eq_one (by simpa [Quantity.hasUnit] using hunit)

/-- The empty text is the unit of plain numbers. -/
theorem unitQuantity_empty (units : Bindings (Quantity ℝ)) :
    unitQuantity units "" = .ok (.plain 1) := by
  have htext : CompoundUnit.ofText "" = .ok ((.one, 1) : CompoundUnit ℝ × ℝ) := by
    rw [CompoundUnit.ofText, (by decide : Text.trimText "" = "")]
    simp [pure, Except.pure]
  exact unitQuantity_foreign htext fun _ ht => absurd ht List.not_mem_nil

theorem written?_of_ne {unit : String} (h : unit ≠ "") : written? (some unit) = some unit := by
  simp [written?, h]

theorem written?_empty : written? (some "") = none := rfl

theorem written?_none : written? none = none := rfl

/-- The bounds of a looser form with nothing behind them are in the unit of one of them. -/
theorem looseBounds_own {units : Bindings (Quantity ℝ)} {x y : Quantity ℝ} {preferSecond : Bool}
    {u : CompoundUnit ℝ} {a b : ℝ}
    (hu : (if preferSecond then if y.hasUnit then y.unit else x.unit
      else if x.hasUnit then x.unit else y.unit) = u)
    (hx : boundIn u 1 x = .ok a) (hy : boundIn u 1 y = .ok b) :
    looseBounds units x y preferSecond none = .ok ⟨a, b, u⟩ := by
  have hone : (Scalar.ofNat 1 : ℝ) = 1 := by simp
  subst hu
  cases preferSecond with
  | false =>
    rw [if_neg Bool.false_ne_true] at hx hy
    simp only [looseBounds, written?_none, hone, if_neg Bool.false_ne_true]
    rw [hx, hy]
    rfl
  | true =>
    rw [if_pos rfl] at hx hy
    simp only [looseBounds, written?_none, hone, if_pos]
    rw [hx, hy]
    rfl

end Session

namespace RangeForm

/-- Two plain bounds with nothing behind them. -/
theorem bounds_plain (form : RangeForm) (units : Bindings (Quantity ℝ)) (a b : ℝ) {second : Node}
    (hsecond : literalCount? second = none) {unit : Option String} (hunit : written? unit = none) :
    form.bounds units second (.plain a) (.plain b) unit = .ok ⟨a, b, .one⟩ := by
  cases form with
  | interval =>
    simp only [bounds, strictBounds, ownBounds, hunit, hasUnit_plain, hsecond]
    rfl
  | uniform =>
    simp only [bounds, looseBounds, hunit, hasUnit_plain, boundIn_plain, bind, Except.bind]
    simp [Quantity.plain, Quantity.mean, pure, Except.pure]
  | normal =>
    simp only [bounds, looseBounds, hunit, hasUnit_plain, boundIn_plain, bind, Except.bind]
    simp [Quantity.plain, Quantity.mean, pure, Except.pure]

/-- A unit behind the range goes before those of the bounds, in every form. -/
theorem bounds_of_unit (form : RangeForm) {units : Bindings (Quantity ℝ)} {second : Node}
    {x y : Quantity ℝ} {unit : String} (h : unit ≠ "") :
    form.bounds units second x y (some unit) = trailingBounds units x y unit := by
  have hwritten := written?_of_ne h
  cases form with
  | interval => rw [bounds, strictBounds, hwritten]
  | uniform => rw [bounds, looseBounds, hwritten]
  | normal => rw [bounds, looseBounds, hwritten]

/-- **A trailing unit** multiplies both bounds. -/
theorem bounds_trailing (form : RangeForm) {units : Bindings (Quantity ℝ)} {unit : String}
    {q : Quantity ℝ} (hq : unitQuantity units unit = .ok q) (a b : ℝ) {second : Node}
    (hsecond : literalCount? second = none) :
    form.bounds units second (.plain a) (.plain b) (some unit) =
      .ok ⟨a * q.mean, b * q.mean, q.unit⟩ := by
  by_cases hempty : unit = ""
  · subst hempty
    obtain rfl := Except.ok.inj ((unitQuantity_empty units).symm.trans hq)
    rw [bounds_plain form units a b hsecond written?_empty]
    simp [Quantity.plain, Quantity.mean]
  · rw [bounds_of_unit form hempty]
    simp only [trailingBounds, hq, boundIn_plain q.unit q.mean (hasUnit_plain _), bind, Except.bind]
    rfl

theorem firstBound_of_not {form : RangeForm} {unit : String} (h : ¬(form = interval ∧ IsCount unit))
    (a scale : ℝ) : form.firstBound unit a scale = a :=
  if_neg h

theorem firstBound_of_count {unit : String} (h : IsCount unit) (a scale : ℝ) :
    interval.firstBound unit a scale = a * scale :=
  if_pos ⟨rfl, h⟩

theorem firstBound_uniform (unit : String) (a scale : ℝ) : uniform.firstBound unit a scale = a :=
  firstBound_of_not (fun h => RangeForm.noConfusion h.1) a scale

theorem firstBound_normal (unit : String) (a scale : ℝ) : normal.firstBound unit a scale = a :=
  firstBound_of_not (fun h => RangeForm.noConfusion h.1) a scale

theorem eq_plain_of_count {units : Bindings (Quantity ℝ)} {unit : String} {q : Quantity ℝ} {c : Rat}
    (hq : unitQuantity units unit = .ok q)
    (hc : Vocabulary.countingWord? (Text.trimText unit) = some c) : q = .plain (c : ℝ) :=
  (Except.ok.inj ((unitQuantity_countingWord units hc).symm.trans hq)).symm

theorem mean_map (q : Quantity ℝ) (b : ℝ) : (q.map (· * b)).mean = b * q.mean := by
  rw [Quantity.map, Quantity.mean_map_mul q.value q.unit q.unit b, mul_comm]

/-- An attached plain number: a counting word is all that can be carried over to the first bound. -/
theorem bounds_attached_plain (form : RangeForm) {units : Bindings (Quantity ℝ)} {unit : String}
    {q : Quantity ℝ} (hsound : q.Sound) (hq : unitQuantity units unit = .ok q)
    (hunit : q.hasUnit = false) (a b : ℝ) (x : Decimal) :
    form.bounds units (.number x (some unit)) (.plain a) (q.map (· * b)) none =
      .ok ⟨form.firstBound unit a q.mean, b * q.mean, q.unit⟩ := by
  have hlow := hasUnit_plain a
  have hhigh : (q.map (· * b)).hasUnit = false := hunit
  have hplain : q.unit = .one := eq_one_of_plain hsound hunit
  have hfirst : boundIn q.unit 1 (.plain a) = .ok a :=
    (boundIn_plain _ _ hlow).trans (congrArg _ (mul_one a))
  have hsecond : boundIn q.unit 1 (q.map (· * b)) = .ok (b * q.mean) := by
    rw [boundIn_plain _ _ hhigh, mul_one, mean_map]
  cases form with
  | interval =>
    simp only [bounds, strictBounds, written?_none, ownBounds, hlow, hhigh, mean_map, hplain,
      literalCount?]
    rcases hword : Vocabulary.countingWord? (Text.trimText unit) with _ | c
    · -- a unit of size one that no counting word names
      have hnot : ¬IsCount unit := by simp [IsCount, hword]
      rw [firstBound_of_not fun h => hnot h.2]
      rfl
    · -- the count read off the text is the scale of the unit
      have hscale : q.mean = c := by
        rw [eq_plain_of_count hq hword]
        rfl
      have hcount : IsCount unit := by simp [IsCount, hword]
      rw [firstBound_of_count hcount, hscale]
      rfl
  | uniform =>
    rw [bounds, firstBound_uniform]
    refine looseBounds_own ?_ hfirst hsecond
    rw [if_pos rfl, hhigh, hplain]
    rfl
  | normal =>
    rw [bounds, firstBound_normal]
    refine looseBounds_own ?_ hfirst hsecond
    rw [if_neg Bool.false_ne_true, hlow]
    rfl

/-- An attached unit is no counting word, so the first bound is in the same unit as it stands. -/
theorem bounds_attached_unit (form : RangeForm) {units : Bindings (Quantity ℝ)} {unit : String}
    {q : Quantity ℝ} (hsound : q.Sound) (hq : unitQuantity units unit = .ok q)
    (hunit : q.hasUnit = true) (a b : ℝ) (x : Decimal) :
    form.bounds units (.number x (some unit)) (.plain a) (q.map (· * b)) none =
      .ok ⟨form.firstBound unit a q.mean, b * q.mean, q.unit⟩ := by
  have hlow := hasUnit_plain a
  have hhigh : (q.map (· * b)).hasUnit = true := hunit
  have hself : (q.map (· * b)).Sound := ⟨hsound.known, hsound.canonical⟩
  have hfirst : boundIn q.unit 1 (.plain a) = .ok a :=
    (boundIn_plain _ _ hlow).trans (congrArg _ (mul_one a))
  have hsecond : boundIn q.unit 1 (q.map (· * b)) = .ok (b * q.mean) :=
    (boundIn_self hself hhigh 1).trans (congrArg _ (mean_map q b))
  -- a counting word is a plain number, and a plain number has no unit
  have hnot : ¬IsCount unit := by
    intro hword
    obtain ⟨c, hc⟩ := Option.isSome_iff_exists.mp hword
    rw [eq_plain_of_count hq hc, hasUnit_plain] at hunit
    cases hunit
  rw [firstBound_of_not fun h => hnot h.2]
  -- the first bound keeps its number in each form, and the second has the unit already
  cases form with
  | interval =>
    simp only [bounds, strictBounds, written?_none, ownBounds, hlow, hhigh, mean_map]
    rfl
  | uniform =>
    rw [bounds]
    refine looseBounds_own ?_ hfirst hsecond
    rw [if_pos rfl, hhigh]
    rfl
  | normal =>
    rw [bounds]
    refine looseBounds_own ?_ hfirst hsecond
    rw [if_neg Bool.false_ne_true, hlow]
    rfl

/-- **An attached unit** is multiplied into the second bound; the first is in the same unit, and a
counting word of `low to high` is multiplied into it, too. -/
theorem bounds_attached (form : RangeForm) {units : Bindings (Quantity ℝ)} {unit : String}
    {q : Quantity ℝ} (hsound : q.Sound) (hq : unitQuantity units unit = .ok q) (a b : ℝ) (x : Decimal) :
    form.bounds units (.number x (some unit)) (.plain a) (q.map (· * b)) none =
      .ok ⟨form.firstBound unit a q.mean, b * q.mean, q.unit⟩ := by
  rcases hunit : q.hasUnit with _ | _
  · exact bounds_attached_plain form hsound hq hunit a b x
  · exact bounds_attached_unit form hsound hq hunit a b x

/-! ## The draws -/

variable {S : Type} [RandomSource S ℝ]

/-- Bounds that a form refuses, for they leave no interval. -/
def Refuses (form : RangeForm) (x y : ℝ) : Prop :=
  match form with
  | interval | uniform => y ≤ x
  | normal => y ≤ 0

/-- The lower end of a form's interval. -/
noncomputable def lowest (form : RangeForm) (x y : ℝ) : ℝ :=
  match form with
  | interval | uniform => x
  | normal => x - y

theorem sampler_refused {form : RangeForm} {x y : ℝ} (h : form.Refuses x y) (confidence : Written ℝ)
    (frame : SampleFrame ℝ) (s : S) :
    ∃ p, (form.sampler x y confidence frame).run s = (.error (.parameter p), s) := by
  cases form with
  | interval =>
    rw [sampler, Sampler.interval]
    split
    · exact Sampler.lognormal_refused (fun hbounds => not_le.mpr hbounds.2 h) confidence frame s
    · exact Sampler.normal_refused h confidence frame s
  | uniform => exact Sampler.uniform_refused h frame s
  | normal =>
    have hwidth : x + y ≤ x - y := by
      have hy : y ≤ 0 := h
      linarith
    exact Sampler.normal_refused hwidth confidence frame s

/-- What a form makes of a number that is drawn, for bounds of a normal interval `c` deviations off the
middle. -/
noncomputable def number (form : RangeForm) (x y c z : ℝ) : ℝ :=
  match form with
  | interval =>
    if 0 < x ∧ 0 < y then Sampler.lognormalNumber x y c z else Sampler.normalNumber x y c z
  | uniform => x + (y - x) * z
  | normal => Sampler.normalNumber (x - y) (x + y) c z

/-- The numbers that a form draws. -/
def drawn (form : RangeForm) : StateM S ℝ :=
  match form with
  | interval | normal => RandomSource.normal
  | uniform => RandomSource.uniform

/-- **A form that accepts its bounds** makes each particle of one number that is drawn. -/
theorem sampler_run {form : RangeForm} {x y c : ℝ} (h : ¬form.Refuses x y) {confidence : Written ℝ}
    (hc : Sampler.centralBound confidence = .ok c) (hpos : 0 < c) (n : SampleCount)
    (unit : CompoundUnit ℝ) (s : S) :
    (form.sampler x y confidence ⟨.ok n, .unit unit⟩).run s =
      let sample := Draw.sampleOf form.drawn n s
      (.ok ⟨.sample (sample.1.map (form.number x y c)), unit⟩, sample.2) := by
  cases form with
  | interval =>
    have hxy : x < y := not_le.mp h
    have hsigns : (Scalar.isPositive x && Scalar.isPositive y) = true ↔ 0 < x ∧ 0 < y := by simp
    by_cases hpositive : 0 < x ∧ 0 < y
    · have hnumber : interval.number x y c = Sampler.lognormalNumber x y c :=
        funext fun z => if_pos hpositive
      rw [sampler, Sampler.interval, if_pos (hsigns.mpr hpositive), hnumber]
      exact Sampler.lognormal_run rfl (UnitChoice.gives_unit unit) hpositive.1 hxy hc hpos s
    · have hnumber : interval.number x y c = Sampler.normalNumber x y c :=
        funext fun z => if_neg hpositive
      rw [sampler, Sampler.interval, if_neg (hsigns.not.mpr hpositive), hnumber]
      exact Sampler.normal_run rfl (UnitChoice.gives_unit unit) hxy hc hpos s
  | uniform => exact Sampler.uniform_run (not_le.mp h) n unit s
  | normal =>
    have hwidth : x - y < x + y := by
      have hy : 0 < y := not_le.mp h
      linarith
    exact Sampler.normal_run rfl (UnitChoice.gives_unit unit) hwidth hc hpos s

/-- Where every number that is drawn lies at the lower end, so does every particle. -/
theorem sampler_low {form : RangeForm} {x y c : ℝ} (h : ¬form.Refuses x y) {confidence : Written ℝ}
    (hc : Sampler.centralBound confidence = .ok c) (hpos : 0 < c) (n : SampleCount)
    (unit : CompoundUnit ℝ) : ∃ (r : Sample ℝ) (t : ConstantSource ℝ), r.head = form.lowest x y ∧
      (form.sampler x y confidence ⟨.ok n, .unit unit⟩).run (⟨0, -c⟩ : ConstantSource ℝ) =
        (.ok ⟨.sample r, unit⟩, t) := by
  refine ⟨_, _, ?_, sampler_run h hc hpos n unit _⟩
  cases form with
  | interval =>
    show (if 0 < x ∧ 0 < y then Sampler.lognormalNumber x y c (-c) else Sampler.normalNumber x y c (-c)) = x
    split
    · rename_i hpositive
      exact Sampler.lognormal_low hpositive.1 hpositive.2 hpos
    · exact Sampler.normal_low hpos
  | uniform =>
    show x + (y - x) * 0 = x
    ring
  | normal => exact Sampler.normal_low hpos

/-! ## The two forms in a session -/

theorem run_number (body : TreeEvaluation ℝ S) (F : Frames ℝ) (x : Decimal) (s : Session ℝ S) :
    (required (.number x none) (evaluateNode body F (.number x none))).run s =
      (.ok (.plain (x.value : ℝ)), s) := by
  rw [run_required_eq_ok, evaluateNode]
  rfl

theorem literal_withUnit {units : Bindings (Quantity ℝ)} {unit : String} {q : Quantity ℝ}
    (hq : unitQuantity units unit = .ok q) (x : ℝ) :
    literal units x (some unit) = .ok (q.map (· * x)) := by
  by_cases hempty : unit = ""
  · subst hempty
    obtain rfl := Except.ok.inj ((unitQuantity_empty units).symm.trans hq)
    rw [literal, written?_empty]
    simp [Quantity.map, Quantity.plain, Value.map, pure, Except.pure]
  · rw [literal, written?_of_ne hempty]
    simp only [hq, bind, Except.bind]
    rfl

/-- A literal is as many of its unit. -/
theorem run_literal (body : TreeEvaluation ℝ S) (F : Frames ℝ) (x : Decimal) {s : Session ℝ S}
    {unit : String} {q : Quantity ℝ} (hq : unitQuantity s.units unit = .ok q) :
    (required (.number x (some unit)) (evaluateNode body F (.number x (some unit)))).run s =
      (.ok (q.map (· * (x.value : ℝ))), s) := by
  rw [run_required_eq_ok, evaluateNode, run_some_eq_ok, run_withUnits_eq_ok]
  exact ⟨literal_withUnit hq _, rfl⟩

/-- A range draws from what its rules make of the values of its bounds. -/
theorem run_node (form : RangeForm) {body : TreeEvaluation ℝ S} {F : Frames ℝ} {first second : Node}
    {unit : Option String} {s s₁ s₂ : Session ℝ S} {x y : Quantity ℝ} {b : Bounds ℝ}
    (hx : (required first (evaluateNode body F first)).run s = (.ok x, s₁))
    (hy : (required second (evaluateNode body F second)).run s₁ = (.ok y, s₂))
    (hb : form.bounds s₂.units second x y unit = .ok b) :
    (evaluateNode body F (form.node first second unit)).run s =
      (some <$> sampleIn b.unit (form.sampler b.low b.high)).run s₂ := by
  rw [evaluateNode_node, run_bind_of_ok hx, run_bind_of_ok hy,
    run_bind_of_ok (run_withUnits_eq_ok.mpr ⟨hb, rfl⟩)]

theorem ne_empty_of_error {units : Bindings (Quantity ℝ)} {unit : String} {e : Fault ℝ}
    (he : unitQuantity units unit = .error e) : unit ≠ "" := by
  rintro rfl
  rw [unitQuantity_empty] at he
  cases he

theorem run_attached (form : RangeForm) {s : Session ℝ S} (hunits : UnitsSound s.units) {unit : String}
    {q : Quantity ℝ} (hq : unitQuantity s.units unit = .ok q) (a b : Decimal) :
    (evaluateTree (form.attached a b unit)).run s =
      (some <$> sampleIn q.unit
        (form.sampler (form.firstBound unit a.value q.mean) (b.value * q.mean))).run s := by
  rw [evaluateTree, evaluateWithin, attached]
  rw [run_node form (run_number _ _ a s) (run_literal _ _ b hq)
    (bounds_attached form (unitQuantity_sound hunits hq) hq _ _ b)]

theorem run_attached_of_error (form : RangeForm) {s : Session ℝ S} {unit : String} {e : Fault ℝ}
    (he : unitQuantity s.units unit = .error e) (a b : Decimal) :
    (evaluateTree (form.attached a b unit)).run s = (.error e, s) := by
  have hliteral : literal s.units (Scalar.ofDecimal b) (some unit) = .error e := by
    rw [literal, written?_of_ne (ne_empty_of_error he)]
    simp only [he, bind, Except.bind]
  have hsecond : (required (.number b (some unit)) (evaluateNode (evaluateWithin callLimit) []
      (.number b (some unit)))).run s = (.error e, s) := by
    have hnode : (some <$> withUnits (S := S) (literal · (Scalar.ofDecimal b) (some unit))).run s =
        (.error e, s) := by
      rw [map_eq_pure_bind]
      exact run_bind_of_error ((run_withUnits _ s).trans (by rw [hliteral]))
    rw [evaluateNode]
    exact run_bind_of_error hnode
  rw [evaluateTree, evaluateWithin, attached, evaluateNode_node, run_bind_of_ok (run_number _ _ a s)]
  exact run_bind_of_error hsecond

theorem run_trailing (form : RangeForm) {s : Session ℝ S} {unit : String} {q : Quantity ℝ}
    (hq : unitQuantity s.units unit = .ok q) (a b : Decimal) :
    (evaluateTree (form.trailing a b unit)).run s =
      (some <$> sampleIn q.unit (form.sampler (a.value * q.mean) (b.value * q.mean))).run s := by
  rw [evaluateTree, evaluateWithin, trailing]
  rw [run_node form (run_number _ _ a s) (run_number _ _ b s) (bounds_trailing form hq _ _ rfl)]

theorem run_trailing_of_error (form : RangeForm) {s : Session ℝ S} {unit : String} {e : Fault ℝ}
    (he : unitQuantity s.units unit = .error e) (a b : Decimal) :
    (evaluateTree (form.trailing a b unit)).run s = (.error e, s) := by
  have hbounds : form.bounds s.units (.number b none) (.plain a.value) (.plain b.value) (some unit) =
      .error e := by
    rw [bounds_of_unit form (ne_empty_of_error he)]
    simp only [trailingBounds, he, bind, Except.bind]
  rw [evaluateTree, evaluateWithin, trailing, evaluateNode_node, run_bind_of_ok (run_number _ _ a s),
    run_bind_of_ok (run_number _ _ b s)]
  exact run_bind_of_error ((run_withUnits _ s).trans (by rw [hbounds]))

omit [RandomSource S ℝ] in
theorem run_drawnIn {unit : CompoundUnit ℝ}
    {f : Written ℝ → SampleFrame ℝ → Draw ℝ S (Quantity ℝ)} {s : Session ℝ S}
    {e : Except (Fault ℝ) (Quantity ℝ)} {t : S}
    (h : (f s.settings.confidence (s.frame unit)).run s.source = (e, t)) :
    (sampleIn unit f).run s = (e, { s with source := t }) := by
  rw [sampleIn, run_bind_of_ok (run_get s), run_draw, h]

omit [RandomSource S ℝ] in
theorem run_sampleIn {unit : CompoundUnit ℝ}
    {f : Written ℝ → SampleFrame ℝ → Draw ℝ S (Quantity ℝ)} {s : Session ℝ S}
    {e : Except (Fault ℝ) (Quantity ℝ)} {t : S}
    (h : (f s.settings.confidence (s.frame unit)).run s.source = (e, t)) :
    (some <$> sampleIn unit f).run s = (e.map some, { s with source := t }) := by
  have hsample := run_drawnIn h
  rcases e with e | q
  · rw [map_eq_pure_bind]
    exact run_bind_of_error hsample
  · exact run_some_eq_ok.mpr hsample

/-! ## Where they agree -/

/-- The scale of an attached unit makes no difference: there is nothing to scale, or nothing to scale it
by, or a counting word that is carried over, or no interval either way. -/
def ScaleIrrelevant (form : RangeForm) (unit : String) (a b scale : ℝ) : Prop :=
  a = 0 ∨ scale = 1 ∨ (form = interval ∧ IsCount unit) ∨
    (form.Refuses a (b * scale) ∧ form.Refuses (a * scale) (b * scale))

theorem firstBound_eq_or {form : RangeForm} {unit : String} {a b scale : ℝ}
    (h : form.ScaleIrrelevant unit a b scale) : form.firstBound unit a scale = a * scale ∨
      (form.Refuses (form.firstBound unit a scale) (b * scale) ∧
        form.Refuses (a * scale) (b * scale)) := by
  by_cases hcount : form = interval ∧ IsCount unit
  · exact .inl (if_pos hcount)
  · rw [firstBound_of_not hcount]
    rcases h with rfl | rfl | hword | hrefused
    · exact .inl (zero_mul _).symm
    · exact .inl (mul_one a).symm
    · exact absurd hword hcount
    · exact .inr hrefused

theorem firstBound_ne {form : RangeForm} {unit : String} {a b scale : ℝ}
    (h : ¬form.ScaleIrrelevant unit a b scale) : form.firstBound unit a scale = a ∧
      a ≠ a * scale ∧ ¬(form.Refuses a (b * scale) ∧ form.Refuses (a * scale) (b * scale)) := by
  obtain ⟨hzero, hone, hcount, hrefused⟩ :
      a ≠ 0 ∧ scale ≠ 1 ∧ ¬(form = interval ∧ IsCount unit) ∧
        ¬(form.Refuses a (b * scale) ∧ form.Refuses (a * scale) (b * scale)) := by
    simpa only [ScaleIrrelevant, not_or] using h
  refine ⟨firstBound_of_not hcount a scale, fun heq => hone ?_, hrefused⟩
  exact (mul_eq_left₀ hzero).mp heq.symm

end RangeForm

/-- Outcomes that are the same: faults of one kind, or values of one dimension with the same particles
in base units. -/
inductive SameOutcome :
    Except (Fault ℝ) (Option (Quantity ℝ)) → Except (Fault ℝ) (Option (Quantity ℝ)) → Prop
  | fault {e f : Fault ℝ} (h : e.kind = f.kind) : SameOutcome (.error e) (.error f)
  | noValue : SameOutcome (.ok none) (.ok none)
  | value {q r : Quantity ℝ} (hdimension : q.dimension = r.dimension)
    (hscalar : q.isScalar = r.isScalar) (hsize : q.size = r.size)
    (hparticles : ∀ i < q.size, q.inBase i = r.inBase i) :
    SameOutcome (.ok (some q)) (.ok (some r))

theorem SameOutcome.refl (e : Except (Fault ℝ) (Option (Quantity ℝ))) : SameOutcome e e := by
  rcases e with f | _ | q
  · exact .fault rfl
  · exact .noValue
  · exact .value rfl rfl rfl fun _ _ => rfl

namespace Session

open RangeForm

variable {form : RangeForm} {a b : Decimal} {unit : String} {q : Quantity ℝ}

/-- A draw from two bounds in a unit. -/
noncomputable abbrev drawnFrom {S : Type} [RandomSource S ℝ] (form : RangeForm) (u : CompoundUnit ℝ)
    (x y : ℝ) (s : Session ℝ S) : Except (Fault ℝ) (Option (Quantity ℝ)) :=
  ((some <$> sampleIn u (form.sampler x y)).run s).1

theorem sameOutcome_of_bounds {S : Type} [RandomSource S ℝ] (s : Session ℝ S) (u : CompoundUnit ℝ)
    {x x' y : ℝ} (h : x = x' ∨ (form.Refuses x y ∧ form.Refuses x' y)) :
    SameOutcome (drawnFrom form u x y s) (drawnFrom form u x' y s) := by
  rcases h with rfl | ⟨hx, hx'⟩
  · exact .refl _
  · -- the faults name different bounds, but are of one kind
    obtain ⟨e, he⟩ := sampler_refused hx s.settings.confidence (s.frame u) s.source
    obtain ⟨f, hf⟩ := sampler_refused hx' s.settings.confidence (s.frame u) s.source
    rw [drawnFrom, drawnFrom, run_sampleIn he, run_sampleIn hf]
    exact .fault rfl

/-- A source whose numbers lie at the lower end tells different first bounds apart: each is given back,
or one of them is refused. -/
theorem not_sameOutcome_of_bounds {s : Session ℝ (ConstantSource ℝ)} {c : ℝ}
    (hc : Sampler.centralBound s.settings.confidence = .ok c) (hpos : 0 < c)
    (hsource : s.source = ⟨0, -c⟩) {u : CompoundUnit ℝ} (hu : u.Known) {x x' y : ℝ} (hne : x ≠ x')
    (hrefused : ¬(form.Refuses x y ∧ form.Refuses x' y)) :
    ¬SameOutcome (drawnFrom form u x y s) (drawnFrom form u x' y s) := by
  have hlow : ∀ {x y : ℝ}, ¬form.Refuses x y → ∃ (r : Sample ℝ) (t : ConstantSource ℝ),
      r.head = form.lowest x y ∧ (some <$> sampleIn u (form.sampler x y)).run s =
        (.ok (some ⟨.sample r, u⟩), { s with source := t }) := by
    intro x y hxy
    obtain ⟨r, t, hr, hrun⟩ := sampler_low hxy hc hpos s.settings.sampleCount u
    rw [← hsource] at hrun
    exact ⟨r, t, hr, run_sampleIn hrun⟩
  rw [drawnFrom, drawnFrom]
  by_cases hx : form.Refuses x y
  · -- only the first one is refused
    have hx' : ¬form.Refuses x' y := fun hx' => hrefused ⟨hx, hx'⟩
    obtain ⟨e, he⟩ := sampler_refused hx s.settings.confidence (s.frame u) s.source
    obtain ⟨r, t, -, hr⟩ := hlow hx'
    rw [run_sampleIn he, hr]
    exact fun hsame => nomatch hsame
  by_cases hx' : form.Refuses x' y
  · -- only the second one is
    obtain ⟨e, he⟩ := sampler_refused hx' s.settings.confidence (s.frame u) s.source
    obtain ⟨r, t, -, hr⟩ := hlow hx
    rw [run_sampleIn he, hr]
    exact fun hsame => nomatch hsame
  · -- both have values: their first particles are the lower ends
    obtain ⟨r, t, hrlow, hr⟩ := hlow hx
    obtain ⟨r', t', hrlow', hr'⟩ := hlow hx'
    rw [hr, hr']
    rintro (_ | _ | ⟨-, -, -, hparticles⟩)
    have hhead : r.head * u.size = r'.head * u.size := hparticles 0 (Nat.succ_pos _)
    have hlowest := mul_right_cancel₀ hu.size_pos.ne' hhead
    rw [hrlow, hrlow'] at hlowest
    refine hne ?_
    cases form with
    | interval => exact hlowest
    | uniform => exact hlowest
    | normal => exact sub_left_inj.mp hlowest

theorem sameOutcome_of_irrelevant {S : Type} [RandomSource S ℝ] {s : Session ℝ S}
    (hunits : UnitsSound s.units) (hq : unitQuantity s.units unit = .ok q)
    (h : form.ScaleIrrelevant unit a.value b.value q.mean) :
    SameOutcome (outcome (form.attached a b unit) s) (outcome (form.trailing a b unit) s) := by
  rw [outcome, outcome, run_attached form hunits hq, run_trailing form hq]
  exact sameOutcome_of_bounds s q.unit (firstBound_eq_or h)

/-- A source whose numbers lie at the lower end tells the forms apart: each gives its first bound back,
or one of them is refused. -/
theorem not_sameOutcome_of_relevant {s : Session ℝ (ConstantSource ℝ)} {c : ℝ}
    (hc : Sampler.centralBound s.settings.confidence = .ok c) (hpos : 0 < c)
    (hsource : s.source = ⟨0, -c⟩) (hunits : UnitsSound s.units)
    (hq : unitQuantity s.units unit = .ok q)
    (h : ¬form.ScaleIrrelevant unit a.value b.value q.mean) :
    ¬SameOutcome (outcome (form.attached a b unit) s) (outcome (form.trailing a b unit) s) := by
  obtain ⟨hfirst, hne, hrefused⟩ := firstBound_ne h
  rw [outcome, outcome, run_attached form hunits hq, run_trailing form hq, hfirst]
  exact not_sameOutcome_of_bounds hc hpos hsource (unitQuantity_sound hunits hq).known hne hrefused

/-- **Where a unit may stand.** With the settings and the definitions of units of a session, a unit
attached to the second bound and one behind the range lead to the same outcome from every random source
exactly if its scale makes no difference. -/
theorem attached_agrees_iff {S₀ : Type} [RandomSource S₀ ℝ] {s₀ : Session ℝ S₀} (hs₀ : Reachable s₀)
    (form : RangeForm) (a b : Decimal) (unit : String) :
    (∀ (S : Type) [RandomSource S ℝ] (s : Session ℝ S), s.settings = s₀.settings → s.units = s₀.units →
      SameOutcome (outcome (form.attached a b unit) s) (outcome (form.trailing a b unit) s)) ↔
    ∀ q, unitQuantity s₀.units unit = .ok q →
      form.ScaleIrrelevant unit a.value b.value q.mean := by
  have hunits := hs₀.unitsSound
  have hmass := hs₀.sound.1
  constructor
  · intro hsame q hq
    by_contra hrelevant
    -- the same session, but with every number at the lower end
    let s : Session ℝ (ConstantSource ℝ) :=
      { Session.ofSource s₀.settings ⟨0, -(√2 * erfInv s₀.settings.confidence.toScalar)⟩ with
        units := s₀.units }
    have hdiffer := not_sameOutcome_of_relevant (s := s) (Sampler.centralBound_eq hmass)
      (Sampler.centralBound_pos hmass) rfl hunits hq hrelevant
    exact hdiffer (hsame _ s rfl rfl)
  · intro hirrelevant S _ s hsettings hsame
    rw [← hsame] at hunits hirrelevant
    rcases hq : unitQuantity s.units unit with e | q
    · -- no such unit: the fault is that of the text, wherever it stands
      rw [outcome, outcome, run_attached_of_error form hq, run_trailing_of_error form hq]
      exact .refl _
    · exact sameOutcome_of_irrelevant hunits hq (hirrelevant q hq)

/-! ## One to two million -/

/-- Settings with three particles and the usual confidence. -/
noncomputable def threeParticles : Settings ℝ :=
  ⟨⟨3, by decide⟩, .decimal 0.9, none⟩

/-- A new session in which every number is at the lower end of the interval. -/
noncomputable def atLowEnd : Session ℝ (ConstantSource ℝ) :=
  .ofSource threeParticles ⟨0, -(√2 * erfInv threeParticles.confidence.toScalar)⟩

theorem reachable_atLowEnd : Reachable atLowEnd := by
  have hmass : (Scalar.isPositive (0.9 : ℝ) && Scalar.lt (0.9 : ℝ) (Scalar.ofNat 1)) = true := by
    norm_num
  have hcheck : SettingsRequest.check ⟨some (.whole 3), some (.decimal 0.9), none⟩ =
      .ok threeParticles :=
    if_pos hmass
  exact .start hcheck _

theorem unitQuantity_million :
    unitQuantity .empty "million" = .ok (.plain ((1000000 : Rat) : ℝ)) :=
  unitQuantity_countingWord .empty (by decide +kernel)

theorem million_relevant (q : Quantity ℝ) (hq : unitQuantity .empty "million" = .ok q) :
    ¬RangeForm.uniform.ScaleIrrelevant "million" (Decimal.value ⟨false, 1, 0⟩ : Rat)
      (Decimal.value ⟨false, 2, 0⟩ : Rat) q.mean := by
  obtain rfl := Except.ok.inj (hq.symm.trans unitQuantity_million)
  have hmean : (Quantity.plain ((1000000 : Rat) : ℝ)).mean = 1000000 := by
    simp [Quantity.plain, Quantity.mean]
  rw [hmean, (by decide : Decimal.value ⟨false, 1, 0⟩ = 1),
    (by decide : Decimal.value ⟨false, 2, 0⟩ = 2)]
  rintro (hzero | hone | ⟨hform, -⟩ | ⟨hrefused, -⟩)
  · norm_num at hzero
  · norm_num at hone
  · cases hform
  · have hle : ((2 : Rat) : ℝ) * 1000000 ≤ ((1 : Rat) : ℝ) := hrefused
    norm_num at hle

/-- Not every random source makes the same of `1 .. 2 million` both ways. -/
theorem million_behind_a_bound :
    ¬∀ (S : Type) [RandomSource S ℝ] (s : Session ℝ S),
      s.settings = threeParticles → s.units = .empty →
      SameOutcome
        (outcome (RangeForm.uniform.attached ⟨false, 1, 0⟩ ⟨false, 2, 0⟩ "million") s)
        (outcome (RangeForm.uniform.trailing ⟨false, 1, 0⟩ ⟨false, 2, 0⟩ "million") s) := by
  intro hsame
  have hiff := attached_agrees_iff reachable_atLowEnd RangeForm.uniform ⟨false, 1, 0⟩ ⟨false, 2, 0⟩
    "million"
  exact million_relevant _ unitQuantity_million (hiff.mp hsame _ unitQuantity_million)

/-- With every number at the lower end, `1 .. 2 million` is one million if the word trails the range,
and one if it is attached to the two. -/
theorem million_at_the_low_end :
    ¬SameOutcome
      (outcome (RangeForm.uniform.attached ⟨false, 1, 0⟩ ⟨false, 2, 0⟩ "million") atLowEnd)
      (outcome (RangeForm.uniform.trailing ⟨false, 1, 0⟩ ⟨false, 2, 0⟩ "million") atLowEnd) := by
  have hmass : Sampler.IsMass threeParticles.confidence := reachable_atLowEnd.sound.1
  exact not_sameOutcome_of_relevant (Sampler.centralBound_eq hmass) (Sampler.centralBound_pos hmass) rfl
    unitsSound_empty unitQuantity_million (million_relevant _ unitQuantity_million)

end Session

end Ballpark
