import Ballpark.Proofs.Conversion
import Ballpark.Proofs.RangeUnits

/-!
# Bounds in other units

A range does not depend on the units that its bounds are written in. Whatever unit the rules for bounds
choose, both bounds come to numbers of it that are the given ones up to a common factor, the quotient of
the two units (`IsRangeOf.exists_bounds`). A common positive factor keeps the signs of the bounds and
their order, so the same family of numbers is drawn and the same bounds are refused; and it comes out of
each family as a factor of every particle (`RangeForm.number_scale`), of the lognormal one because it
only shifts the middle of the logarithms. The size of the unit of the result takes it back.
-/

namespace Ballpark

open Session Evaluation RangeForm

/-! ## A common factor of the bounds -/

namespace Sampler

theorem lognormalNumber_scale {a b k : ℝ} (ha : 0 < a) (hb : 0 < b) (hk : 0 < k) (c z : ℝ) :
    lognormalNumber (a * k) (b * k) c z = lognormalNumber a b c z * k := by
  have hratio : b * k / (a * k) = b / a := mul_div_mul_right b a hk.ne'
  have hroot : √(a * k * (b * k)) = √(a * b) * k := by
    have hproduct : a * k * (b * k) = a * b * k ^ 2 := by ring
    rw [hproduct, Real.sqrt_mul (mul_pos ha hb).le, Real.sqrt_sq hk.le]
  have hmiddle : Real.log √(a * k * (b * k)) = Real.log √(a * b) + Real.log k := by
    rw [hroot, Real.log_mul (Real.sqrt_pos.mpr (mul_pos ha hb)).ne' hk.ne']
  rw [lognormalNumber, lognormalNumber, hratio, hmiddle, add_right_comm, Real.exp_add,
    Real.exp_log hk]

theorem normalNumber_scale (a b k c z : ℝ) :
    normalNumber (a * k) (b * k) c z = normalNumber a b c z * k := by
  rw [normalNumber, normalNumber]
  ring

end Sampler

namespace RangeForm

theorem number_scale (form : RangeForm) {k : ℝ} (hk : 0 < k) (x y c z : ℝ) :
    form.number (x * k) (y * k) c z = form.number x y c z * k := by
  cases form with
  | interval =>
    have hsigns : (0 < x * k ∧ 0 < y * k) ↔ (0 < x ∧ 0 < y) :=
      and_congr (mul_pos_iff_of_pos_right hk) (mul_pos_iff_of_pos_right hk)
    simp only [number, hsigns]
    split
    · rename_i hpositive
      exact Sampler.lognormalNumber_scale hpositive.1 hpositive.2 hk c z
    · exact Sampler.normalNumber_scale x y k c z
  | uniform =>
    simp only [number]
    ring
  | normal =>
    simp only [number]
    rw [← sub_mul, ← add_mul, Sampler.normalNumber_scale]

theorem refuses_scale (form : RangeForm) {k : ℝ} (hk : 0 < k) (x y : ℝ) :
    form.Refuses (x * k) (y * k) ↔ form.Refuses x y := by
  have hnonpos : y * k ≤ 0 ↔ y ≤ 0 := by
    simpa using mul_le_mul_iff_of_pos_right (b := y) (c := 0) hk
  cases form with
  | interval => exact mul_le_mul_iff_of_pos_right hk
  | uniform => exact mul_le_mul_iff_of_pos_right hk
  | normal => exact hnonpos

end RangeForm

/-! ## Ways to write bounds -/

namespace Session

variable {S : Type} {s : Session ℝ S}

theorem countingWord_ne_one {word : String} {count : Rat}
    (h : Vocabulary.countingWord? word = some count) : count ≠ 1 := by
  obtain ⟨w, hfind, rfl⟩ := Option.map_eq_some_iff.mp h
  have hall : ∀ w ∈ Vocabulary.countingWords, w.2 ≠ 1 := by decide +kernel
  exact hall w (List.mem_of_find?_eq_some hfind)

theorem countingWord_pos {word : String} {count : Rat}
    (h : Vocabulary.countingWord? word = some count) : 0 < count := by
  obtain ⟨w, hfind, rfl⟩ := Option.map_eq_some_iff.mp h
  exact Vocabulary.countingWords_positive w (List.mem_of_find?_eq_some hfind)

/-- A text that is read as a unit without a number, none of whose factors the program has defined. -/
structure ScaleFree (units : Bindings (Quantity ℝ)) (text : String) (u : CompoundUnit ℝ) : Prop where
  read : CompoundUnit.ofText text = .ok (u, 1)
  foreign : ∀ t ∈ u.terms, units.get? t.unit.base = none

namespace ScaleFree

variable {units : Bindings (Quantity ℝ)} {text : String} {u : CompoundUnit ℝ}

theorem unitQuantity_eq (h : ScaleFree units text u) :
    unitQuantity units text = .ok ⟨.scalar 1, u⟩ :=
  unitQuantity_foreign h.read h.foreign

theorem sound (h : ScaleFree units text u) (v : Value ℝ) : Quantity.Sound ⟨v, u⟩ :=
  ⟨(CompoundUnit.ofText_sound h.read).1, (CompoundUnit.ofText_sound h.read).2⟩

theorem literal_eq (h : ScaleFree units text u) (x : ℝ) :
    literal units x (some text) = .ok ⟨.scalar x, u⟩ := by
  rw [literal_withUnit h.unitQuantity_eq]
  simp [Quantity.map, Value.map]

/-- No counting word is read without a number. -/
theorem countingWord_eq_none (h : ScaleFree units text u) :
    Vocabulary.countingWord? (Text.trimText text) = none := by
  rcases hword : Vocabulary.countingWord? (Text.trimText text) with _ | count
  · rfl
  · have hone : ((.one, (count : ℝ)) : CompoundUnit ℝ × ℝ) = (u, 1) :=
      Except.ok.inj ((ofText_countingWord hword).symm.trans h.read)
    have hcount : (count : ℝ) = 1 := congrArg Prod.snd hone
    exact absurd (by exact_mod_cast hcount) (countingWord_ne_one hword)

end ScaleFree

/-- A node writes a number of a unit down: a literal, its opposite, or a variable. -/
inductive Writes (s : Session ℝ S) : Node → ℝ → CompoundUnit ℝ → Prop
  | plain (x : Decimal) : Writes s (.number x none) x.value .one
  | withUnit (x : Decimal) {text : String} {u : CompoundUnit ℝ} (h : ScaleFree s.units text u) :
    Writes s (.number x (some text)) x.value u
  | opposite {node : Node} {x : ℝ} {u : CompoundUnit ℝ} (h : Writes s node x u) :
    Writes s (.unary .negate node) (-x) u
  | held {name : String} {x : ℝ} {u : CompoundUnit ℝ}
    (h : s.values.get? name = some ⟨.scalar x, u⟩) : Writes s (.identifier name) x u

namespace Writes

variable {node : Node} {x : ℝ} {u : CompoundUnit ℝ}

/-- No bound that is written has a counting word that would be carried over. -/
theorem literalCount_eq_none (h : Writes s node x u) : literalCount? node = none := by
  cases h with
  | plain | opposite | held => rfl
  | withUnit x h => exact h.countingWord_eq_none

variable [RandomSource S ℝ]

/-- What is written is what it comes to, and the session stays as it is. -/
theorem run (h : Writes s node x u) (body : TreeEvaluation ℝ S) :
    (required node (evaluateNode body [] node)).run s = (.ok ⟨.scalar x, u⟩, s) := by
  induction h with
  | plain x => exact run_number body [] x s
  | withUnit x h =>
    rw [run_required_eq_ok, evaluateNode, run_some_eq_ok, run_withUnits_eq_ok]
    exact ⟨h.literal_eq _, rfl⟩
  | @opposite node x u _ ih =>
    rw [run_required_eq_ok, evaluateNode, run_bind_of_ok ih, run_some_eq_ok]
    rfl
  | held h => exact run_required_variable h body

theorem sound (hs : Reachable s) (h : Writes s node x u) : Quantity.Sound ⟨.scalar x, u⟩ := by
  induction h with
  | plain x => exact ⟨CompoundUnit.known_one, CompoundUnit.canonical_one⟩
  | withUnit x h => exact h.sound _
  | opposite _ ih => exact ⟨ih.known, ih.canonical⟩
  | held h => exact UnitClass.val_canonical.mp (hs.sound.2.values _ _ h)

end Writes

/-- Ranges from `a` to `b` of the unit `u`, in whatever units they are written. -/
inductive IsRangeOf (s : Session ℝ S) (form : RangeForm) (a b : ℝ) (u : CompoundUnit ℝ) : Node → Prop
  /-- each bound in a unit of its own -/
  | apart {low high : Node} {v w : CompoundUnit ℝ} (hv : v.dimension = u.dimension)
    (hw : w.dimension = u.dimension) (hlow : Writes s low (a * (u.size / v.size)) v)
    (hhigh : Writes s high (b * (u.size / w.size)) w) : IsRangeOf s form a b u (form.node low high none)
  /-- one unit, attached to the second of two literals -/
  | attached {x y : Decimal} {text : String} {v : CompoundUnit ℝ} (hv : v.dimension = u.dimension)
    (hread : ScaleFree s.units text v) (hx : (x.value : ℝ) = a * (u.size / v.size))
    (hy : (y.value : ℝ) = b * (u.size / v.size)) : IsRangeOf s form a b u (form.attached x y text)
  /-- one unit behind the range -/
  | behind {low high : Node} {text : String} {v : CompoundUnit ℝ} (hv : v.dimension = u.dimension)
    (hread : ScaleFree s.units text v) (hlow : Writes s low (a * (u.size / v.size)) .one)
    (hhigh : Writes s high (b * (u.size / v.size)) .one) :
    IsRangeOf s form a b u (form.node low high (some text))

/-! ## What the bounds come to -/

/-- A bound in another unit of its dimension. -/
theorem boundIn_same {q r : Quantity ℝ} (hq : q.Sound) (hr : r.Sound)
    (h : q.dimension = r.dimension) :
    boundIn r.unit 1 q = .ok (q.mean * (q.unit.size / r.unit.size)) := by
  rcases hunit : q.hasUnit with _ | _
  · have hplain : r.hasUnit = false := by
      rw [← hunit, Quantity.hasUnit, Quantity.hasUnit, CompoundUnit.isPlain, CompoundUnit.isPlain]
      exact congrArg (!·.isOne) h.symm
    rw [boundIn_plain _ _ hunit, eq_one_of_plain hq hunit, eq_one_of_plain hr hplain,
      CompoundUnit.size_one, div_one]
  · rw [boundIn, if_pos hunit, Quantity.convert_eq hq.known hr.known h]
    simp only [bind, Except.bind, pure, Except.pure]
    rw [Quantity.mean_map_mul q.value r.unit q.unit]

end Session

namespace RangeForm

/-- The unit of a range with nothing behind it: that of the first bound if it is a middle, else that of
the second. -/
def ownUnit (form : RangeForm) (v w : CompoundUnit ℝ) : CompoundUnit ℝ :=
  match form with
  | interval | uniform => w
  | normal => v

theorem ownUnit_or (form : RangeForm) (v w : CompoundUnit ℝ) :
    form.ownUnit v w = v ∨ form.ownUnit v w = w := by
  cases form with
  | interval | uniform => exact .inr rfl
  | normal => exact .inl rfl

/-- **Bounds of one dimension**, each in its own unit, are converted into one of the two. -/
theorem bounds_apart (form : RangeForm) (units : Bindings (Quantity ℝ)) {second : Node}
    {x y : Quantity ℝ} (hx : x.Sound) (hy : y.Sound) (h : x.dimension = y.dimension)
    (hsecond : literalCount? second = none) :
    form.bounds units second x y none =
      .ok ⟨x.mean * (x.unit.size / (form.ownUnit x.unit y.unit).size),
        y.mean * (y.unit.size / (form.ownUnit x.unit y.unit).size), form.ownUnit x.unit y.unit⟩ := by
  have hunits : x.hasUnit = y.hasUnit := by
    rw [Quantity.hasUnit, Quantity.hasUnit, CompoundUnit.isPlain, CompoundUnit.isPlain]
    exact congrArg (!·.isOne) h
  cases form with
  | interval =>
    have hself : y.mean * (y.unit.size / y.unit.size) = y.mean := by
      rw [div_self hy.known.size_pos.ne', mul_one]
    rcases hunit : y.hasUnit with _ | _
    · -- neither has a unit, and no word is carried over
      have hone : x.unit.size / y.unit.size = 1 := by
        rw [eq_one_of_plain hx (hunits.trans hunit), eq_one_of_plain hy hunit,
          CompoundUnit.size_one, div_one]
      simp only [bounds, strictBounds, written?_none, ownBounds, hunits, hunit, hsecond, ownUnit,
        hself, hone, mul_one]
      rw [eq_one_of_plain hy hunit]
      rfl
    · have hsame : x.unit.sameDimension y.unit = true := decide_eq_true h
      simp only [bounds, strictBounds, written?_none, ownBounds, hunits, hunit, hsame, ownUnit, hself,
        Quantity.convert_eq hx.known hy.known h, bind, Except.bind]
      rw [Quantity.mean_map_mul x.value y.unit x.unit]
      rfl
  | uniform =>
    have hown : (if y.hasUnit then y.unit else x.unit) = y.unit := by
      rcases hunit : y.hasUnit with _ | _
      · rw [eq_one_of_plain hx (hunits.trans hunit), eq_one_of_plain hy hunit]
        rfl
      · rfl
    rw [bounds]
    exact looseBounds_own ((if_pos rfl).trans hown) (boundIn_same hx hy h) (boundIn_same hy hy rfl)
  | normal =>
    have hown : (if x.hasUnit then x.unit else y.unit) = x.unit := by
      rcases hunit : x.hasUnit with _ | _
      · rw [eq_one_of_plain hx hunit, eq_one_of_plain hy (hunits.symm.trans hunit)]
        rfl
      · rfl
    rw [bounds]
    exact looseBounds_own ((if_neg Bool.false_ne_true).trans hown) (boundIn_same hx hx rfl)
      (boundIn_same hy hx h.symm)

end RangeForm

namespace Session

variable {S : Type} [RandomSource S ℝ] {s : Session ℝ S} {form : RangeForm} {a b : ℝ}
  {u : CompoundUnit ℝ} {node : Node}

omit [RandomSource S ℝ] in
theorem mean_scalar (x : ℝ) (v : CompoundUnit ℝ) : Quantity.mean ⟨.scalar x, v⟩ = x := rfl

theorem run_written {low high : Node} {x y : ℝ} {v w : CompoundUnit ℝ} {unit : Option String}
    {r : Bounds ℝ} (hlow : Writes s low x v) (hhigh : Writes s high y w)
    (hbounds : form.bounds s.units high ⟨.scalar x, v⟩ ⟨.scalar y, w⟩ unit = .ok r) :
    (evaluateTree (form.node low high unit)).run s =
      (some <$> sampleIn r.unit (form.sampler r.low r.high)).run s := by
  rw [evaluateTree, evaluateWithin]
  rw [run_node form (hlow.run _) (hhigh.run _) hbounds]

/-- **What the bounds come to**: the given ones in some unit of their dimension, however they are
written. -/
theorem IsRangeOf.exists_bounds (hs : Reachable s) (h : IsRangeOf s form a b u node) :
    ∃ z : CompoundUnit ℝ, z.Known ∧ z.dimension = u.dimension ∧ (evaluateTree node).run s =
      (some <$> sampleIn z (form.sampler (a * (u.size / z.size)) (b * (u.size / z.size)))).run s := by
  cases h with
  | @apart low high v w hv hw hlow hhigh =>
    have hx := hlow.sound hs
    have hy := hhigh.sound hs
    have hbounds := form.bounds_apart s.units hx hy (hv.trans hw.symm) hhigh.literalCount_eq_none
    have hz : (form.ownUnit v w).Known ∧ (form.ownUnit v w).dimension = u.dimension := by
      rcases form.ownUnit_or v w with h | h
      · rw [h]
        exact ⟨hx.known, hv⟩
      · rw [h]
        exact ⟨hy.known, hw⟩
    -- the unit that a bound is written in cancels
    have hcancel : ∀ {t : CompoundUnit ℝ} (c : ℝ), t.Known →
        c * (u.size / t.size) * (t.size / (form.ownUnit v w).size) =
          c * (u.size / (form.ownUnit v w).size) := by
      intro t c ht
      rw [mul_assoc, div_mul_div_cancel₀ ht.size_pos.ne']
    refine ⟨form.ownUnit v w, hz.1, hz.2, ?_⟩
    rw [run_written hlow hhigh hbounds]
    simp only [mean_scalar, hcancel _ hx.known, hcancel _ hy.known]
  | @attached x y text v hv hread hx hy =>
    refine ⟨v, (hread.sound (.scalar 1)).known, hv, ?_⟩
    have hfirst : form.firstBound text (x.value : ℝ) 1 = x.value := by
      rw [firstBound]
      split
      · exact mul_one _
      · rfl
    rw [run_attached form hs.unitsSound hread.unitQuantity_eq]
    simp only [mean_scalar, hfirst, mul_one]
    rw [hx, hy]
  | @behind low high text v hv hread hlow hhigh =>
    refine ⟨v, (hread.sound (.scalar 1)).known, hv, ?_⟩
    have hbounds := form.bounds_trailing hread.unitQuantity_eq (a * (u.size / v.size))
      (b * (u.size / v.size)) hhigh.literalCount_eq_none
    rw [run_written hlow hhigh hbounds]
    simp only [mean_scalar, mul_one]

/-- Bounds that the form refuses are refused in every unit, and nothing is drawn. -/
theorem IsRangeOf.run_refused (hs : Reachable s) (hu : u.Known) (h : IsRangeOf s form a b u node)
    (hrefused : form.Refuses a b) : ∃ p, (evaluateTree node).run s = (.error (.parameter p), s) := by
  obtain ⟨z, hz, -, hrun⟩ := h.exists_bounds hs
  have hratio : 0 < u.size / z.size := div_pos hu.size_pos hz.size_pos
  obtain ⟨p, hp⟩ := sampler_refused ((form.refuses_scale hratio a b).mpr hrefused)
    s.settings.confidence (s.frame z) s.source
  exact ⟨p, hrun.trans (run_sampleIn hp)⟩

/-- The numbers that the samplers of a session draw for a form. -/
def drawnSample (s : Session ℝ S) (form : RangeForm) : Sample ℝ × S :=
  Draw.sampleOf form.drawn s.settings.sampleCount s.source

/-- The bound of the central interval of a session. -/
noncomputable def deviations (s : Session ℝ S) : ℝ :=
  √2 * erfInv s.settings.confidence.toScalar

/-- **What a range comes to**: in base units its particles are those of its form, with the bounds in base
units. -/
theorem IsRangeOf.run_accepted (hs : Reachable s) (hu : u.Known) (h : IsRangeOf s form a b u node)
    (haccepted : ¬form.Refuses a b) :
    ∃ q, (evaluateTree node).run s = (.ok (some q), { s with source := (s.drawnSample form).2 }) ∧
      q.dimension = u.dimension ∧ q.isScalar = false ∧ q.size = (s.drawnSample form).1.size ∧
      ∀ i, q.inBase i = form.number (a * u.size) (b * u.size) s.deviations
        ((s.drawnSample form).1.particle i) := by
  obtain ⟨z, hz, hdimension, hrun⟩ := h.exists_bounds hs
  have hmass := hs.sound.1
  have hratio : 0 < u.size / z.size := div_pos hu.size_pos hz.size_pos
  have hsampler := sampler_run (mt (form.refuses_scale hratio a b).mp haccepted)
    (Sampler.centralBound_eq hmass) (Sampler.centralBound_pos hmass) s.settings.sampleCount z s.source
  refine ⟨_, hrun.trans (run_sampleIn hsampler), hdimension, rfl, Sample.size_map _ _, fun i => ?_⟩
  have hbase : ∀ c : ℝ, c * (u.size / z.size) * z.size = c * u.size := fun c => by
    rw [mul_assoc, div_mul_cancel₀ _ hz.size_pos.ne']
  calc
    _ = form.number (a * (u.size / z.size)) (b * (u.size / z.size)) s.deviations
          ((s.drawnSample form).1.particle i) * z.size :=
      congrArg (· * z.size) (Sample.particle_map _ _ i)
    _ = form.number (a * (u.size / z.size) * z.size) (b * (u.size / z.size) * z.size) s.deviations
          ((s.drawnSample form).1.particle i) := (form.number_scale hz.size_pos _ _ _ _).symm
    _ = _ := by rw [hbase, hbase]

/-- **Ranges do not depend on units.** In a session that can come about, all ways to write a range from
`a` to `b` of a unit have one outcome, with the same particles in base units, and leave the same session
behind. The outcome is a fault of a parameter if the form refuses the bounds, else a value. -/
theorem range_in_any_unit (hs : Reachable s) (hu : u.Known) {node node' : Node}
    (h : IsRangeOf s form a b u node) (h' : IsRangeOf s form a b u node') :
    SameOutcome (outcome node s) (outcome node' s) ∧ next node s = next node' s ∧
      (form.Refuses a b → ∃ p, outcome node s = .error (.parameter p)) ∧
      (¬form.Refuses a b → ∃ q, outcome node s = .ok (some q) ∧ q.dimension = u.dimension) := by
  by_cases hrefused : form.Refuses a b
  · obtain ⟨p, hp⟩ := h.run_refused hs hu hrefused
    obtain ⟨p', hp'⟩ := h'.run_refused hs hu hrefused
    rw [outcome, outcome, next, next, hp, hp']
    exact ⟨.fault rfl, rfl, fun _ => ⟨p, rfl⟩, fun haccepted => absurd hrefused haccepted⟩
  · obtain ⟨q, hq, hdimension, hscalar, hsize, hparticles⟩ := h.run_accepted hs hu hrefused
    obtain ⟨q', hq', hdimension', hscalar', hsize', hparticles'⟩ := h'.run_accepted hs hu hrefused
    rw [outcome, outcome, next, next, hq, hq']
    refine ⟨.value (hdimension.trans hdimension'.symm) (hscalar.trans hscalar'.symm)
      (hsize.trans hsize'.symm) fun i _ => (hparticles i).trans (hparticles' i).symm, rfl,
      fun h => absurd h hrefused, fun _ => ⟨q, rfl, hdimension⟩⟩

/-! ## One to three kilometres -/

theorem scaleFree_name {name : String} {m : UnitMeaning} (hname : UnitToken.IsName name.toList)
    (hper : name ≠ "per") (h : UnitName.resolve? name = some ⟨m, none, name⟩)
    (hdimensional : m.dimension.isOne = false) :
    ScaleFree .empty name ⟨[⟨name, m.toUnit, 1⟩]⟩ :=
  ⟨CompoundUnit.ofText_name hname hper h hdimensional, fun _ _ => rfl⟩

/-- What a metre is. -/
def metre : UnitMeaning :=
  .entry (.base ⟨"meter", ["m", "metre"], ["meters", "metres"], [(.length, 1)], .exact 1, true⟩)

/-- What a kilometre is. -/
def kilometre : UnitMeaning :=
  .entry (.withPrefix ⟨"kilo", "k", 3⟩
    ⟨"meter", ["m", "metre"], ["meters", "metres"], [(.length, 1)], .exact 1, true⟩)

/-- The unit of metres. -/
noncomputable def metres : CompoundUnit ℝ :=
  ⟨[⟨"m", metre.toUnit, 1⟩]⟩

/-- The unit of kilometres. -/
noncomputable def kilometres : CompoundUnit ℝ :=
  ⟨[⟨"km", kilometre.toUnit, 1⟩]⟩

theorem scaleFree_metres : ScaleFree .empty "m" metres :=
  scaleFree_name (.plain (by decide) (List.all_eq_true.mp (by decide))) (by decide)
    (by decide +kernel) (by decide +kernel)

theorem scaleFree_kilometres : ScaleFree .empty "km" kilometres :=
  scaleFree_name (.plain (by decide) (List.all_eq_true.mp (by decide))) (by decide)
    (by decide +kernel) (by decide +kernel)

theorem metres_per_kilometre : kilometres.size / metres.size = 1000 := by
  rw [kilometres, metres, CompoundUnit.size_cons, CompoundUnit.size_cons, CompoundUnit.size_nil]
  norm_num [kilometre, metre, UnitMeaning.toUnit, VocabularyEntry.toUnit, Size.toScalar]

/-- From one to three kilometres, and from a thousand metres to three kilometres. -/
theorem one_to_three_kilometres :
    let three : Node := .number ⟨false, 3, 0⟩ (some "km")
    let inKilometres := RangeForm.interval.node (.number ⟨false, 1, 0⟩ (some "km")) three none
    let inBoth := RangeForm.interval.node (.number ⟨false, 1000, 0⟩ (some "m")) three none
    SameOutcome (outcome inKilometres atLowEnd) (outcome inBoth atLowEnd) ∧
      ∃ q, outcome inKilometres atLowEnd = .ok (some q) := by
  intro three inKilometres inBoth
  have hone : (Decimal.value ⟨false, 1, 0⟩ : ℝ) = 1 := by
    rw [(by decide : Decimal.value ⟨false, 1, 0⟩ = 1), Rat.cast_one]
  have hthree : (Decimal.value ⟨false, 3, 0⟩ : ℝ) = 3 := by
    rw [(by decide : Decimal.value ⟨false, 3, 0⟩ = 3), Rat.cast_ofNat]
  have hthousand : (Decimal.value ⟨false, 1000, 0⟩ : ℝ) = 1000 := by
    rw [(by decide : Decimal.value ⟨false, 1000, 0⟩ = 1000), Rat.cast_ofNat]
  have hknown : kilometres.Known := (scaleFree_kilometres.sound (.scalar 1)).known
  have hself : kilometres.size / kilometres.size = 1 := div_self hknown.size_pos.ne'
  have hupper : Writes atLowEnd three (3 * (kilometres.size / kilometres.size)) kilometres := by
    rw [hself, mul_one, ← hthree]
    exact .withUnit _ scaleFree_kilometres
  have hfirst : IsRangeOf atLowEnd .interval 1 3 kilometres inKilometres := by
    refine .apart rfl rfl ?_ hupper
    rw [hself, mul_one, ← hone]
    exact .withUnit _ scaleFree_kilometres
  have hsecond : IsRangeOf atLowEnd .interval 1 3 kilometres inBoth := by
    refine .apart (v := metres) rfl rfl ?_ hupper
    rw [metres_per_kilometre, one_mul, ← hthousand]
    exact .withUnit _ scaleFree_metres
  obtain ⟨hsame, -, -, haccepted⟩ := range_in_any_unit reachable_atLowEnd hknown hfirst hsecond
  obtain ⟨q, hq, -⟩ := haccepted (by norm_num [RangeForm.Refuses])
  exact ⟨hsame, q, hq⟩

end Session

end Ballpark
