import Ballpark.Proofs.RangeScale

/-!
# Bounds at their quantiles

The samplers that are given by an interval make each particle of one normal number, by a function that
grows and takes the two ends of the central interval of the standard normal to the two bounds
(`Sampler.IsQuantile`). So a particle is between the bounds exactly if its number is in the central
interval, and the confidence of the probability is between them. For a normal interval the function is
linear; a lognormal one is a normal one between the logarithms of the bounds. Percentages and decibels
are lognormal intervals, and a range of a program runs one of the two samplers with the bounds that its
operands come to.
-/

namespace Ballpark

namespace Sampler

open Evaluation

/-- A function that grows, and takes the ends of the interval from `-c` to `c` to the bounds: just that
interval goes between them. -/
structure IsQuantile (c a b : ℝ) (f : ℝ → ℝ) : Prop where
  strictMono : StrictMono f
  low : f (-c) = a
  high : f c = b
  within : ∀ z, f z ∈ Set.Icc a b ↔ |z| ≤ c

theorem IsQuantile.of_ends {c a b : ℝ} {f : ℝ → ℝ} (hmono : StrictMono f) (hlow : f (-c) = a)
    (hhigh : f c = b) : IsQuantile c a b f := by
  refine ⟨hmono, hlow, hhigh, fun z => ?_⟩
  rw [← hlow, ← hhigh, Set.mem_Icc, hmono.le_iff_le, hmono.le_iff_le, abs_le]

theorem normal_isQuantile {a b c : ℝ} (hab : a < b) (hc : 0 < c) :
    IsQuantile c a b (normalNumber a b c) := by
  have hslope : 0 < 0.5 * (b - a) / c := div_pos (mul_pos (by norm_num) (sub_pos.mpr hab)) hc
  refine .of_ends (fun x y hxy => ?_) (normal_low hc) ?_
  · exact add_lt_add_right (mul_lt_mul_of_pos_left hxy hslope) _
  · rw [normalNumber]
    field_simp
    ring

/-- The exponential of a normal number between the logarithms of the bounds. -/
theorem lognormal_isQuantile {a b c : ℝ} (ha : 0 < a) (hab : a < b) (hc : 0 < c) :
    IsQuantile c a b (lognormalNumber a b c) := by
  have hb := ha.trans hab
  have hnormal := normal_isQuantile (Real.log_lt_log ha hab) hc
  refine .of_ends (fun x y hxy => ?_) (lognormal_low ha hb hc) ?_
  · rw [lognormalNumber_eq ha hb, lognormalNumber_eq ha hb]
    exact Real.exp_lt_exp.mpr (hnormal.strictMono hxy)
  · rw [lognormalNumber_eq ha hb, hnormal.high, Real.exp_log hb]

variable {S : Type} [RandomSource S ℝ]

/-- **A sampler of an interval** accepts its parameters exactly under a condition. Then it draws as many
normal numbers as there are particles and makes the particles of them, the two bounds at the ends of the
central interval; and else it draws nothing. -/
structure PutsBounds (accepted : Prop) (n : SampleCount) (u : CompoundUnit ℝ) (c a b : ℝ)
    (sampler : Draw ℝ S (Quantity ℝ)) : Prop where
  draws : accepted → ∃ f, IsQuantile c a b f ∧ ∀ s : S,
    let drawn := Draw.sampleOf RandomSource.normal n s
    sampler.run s = (.ok ⟨.sample (drawn.1.map f), u⟩, drawn.2)
  refuses : ¬accepted → ∀ s : S, ∃ p, sampler.run s = (.error (.parameter p), s)

namespace PutsBounds

variable {accepted : Prop} {n : SampleCount} {u : CompoundUnit ℝ} {c a b : ℝ}
  {sampler : Draw ℝ S (Quantity ℝ)}

theorem of_iff {accepted' : Prop} (h : PutsBounds accepted n u c a b sampler)
    (hiff : accepted' ↔ accepted) : PutsBounds accepted' n u c a b sampler :=
  ⟨fun haccepted => h.draws (hiff.mp haccepted), fun hnot => h.refuses (mt hiff.mpr hnot)⟩

/-- A sampler that runs another one as soon as its own parameter is accepted. -/
theorem after_require (h : PutsBounds accepted n u c a b sampler) {x : ℝ} (hx : 0 < x → accepted)
    (fault : ParameterFault ℝ) :
    PutsBounds (0 < x) n u c a b (do
      Draw.require (Scalar.isPositive x) fault
      sampler) := by
  constructor
  · intro hpos
    have hrequire : Scalar.isPositive x = true := by simpa using hpos
    obtain ⟨f, hf, hrun⟩ := h.draws (hx hpos)
    refine ⟨f, hf, fun s => ?_⟩
    rw [run_bind_of_ok (run_require_of_true hrequire fault s)]
    exact hrun s
  · intro hneg s
    have hrequire : ¬Scalar.isPositive x = true := by simpa using hneg
    exact ⟨fault, run_bind_of_error (run_require_of_false hrequire fault s)⟩

end PutsBounds

/-! ## The samplers -/

section

variable {confidence : Written ℝ} {c : ℝ} (hc : centralBound confidence = .ok c) (hpos : 0 < c)
  {n : SampleCount}
include hc hpos

section

variable {frame : SampleFrame ℝ} (hcount : frame.count = .ok n) {u : CompoundUnit ℝ}
  (hunit : frame.unit.Gives u)
include hcount hunit

theorem lognormal_putsBounds (a b : ℝ) :
    PutsBounds (0 < a ∧ a < b) n u c a b (lognormal a b confidence frame : Draw ℝ S (Quantity ℝ)) where
  draws h := ⟨_, lognormal_isQuantile h.1 h.2 hpos, lognormal_run hcount hunit h.1 h.2 hc hpos⟩
  refuses h := lognormal_refused h confidence frame

theorem normal_putsBounds (a b : ℝ) :
    PutsBounds (a < b) n u c a b (normal a b confidence frame : Draw ℝ S (Quantity ℝ)) where
  draws h := ⟨_, normal_isQuantile h hpos, normal_run hcount hunit h hc hpos⟩
  refuses h := normal_refused (not_lt.mp h) confidence frame

/-- Whichever of the two is chosen, the bounds are accepted exactly if they are in order. -/
theorem interval_putsBounds (a b : ℝ) :
    PutsBounds (a < b) n u c a b (interval a b confidence frame : Draw ℝ S (Quantity ℝ)) := by
  rw [interval]
  split
  · rename_i hsigns
    simp only [Scalar.isPositive_real, Bool.and_eq_true, decide_eq_true_eq] at hsigns
    exact (lognormal_putsBounds hc hpos hcount hunit a b).of_iff (and_iff_right hsigns.1).symm
  · exact normal_putsBounds hc hpos hcount hunit a b

end

section

variable {count : Except (Fault ℝ) SampleCount} (hcount : count = .ok n)
include hcount

/-- A factor has no unit. -/
theorem factor_putsBounds (a b : ℝ) :
    PutsBounds (0 < a ∧ a < b) n .one c a b
      (lognormal a b confidence (.plain count) : Draw ℝ S (Quantity ℝ)) := by
  have hframe : (SampleFrame.plain count : SampleFrame ℝ).count = .ok n := hcount
  exact lognormal_putsBounds hc hpos hframe (UnitChoice.gives_unit .one) a b

theorem percent_putsBounds (p : ℝ) :
    PutsBounds (0 < p) n .one c (1 / (1 + p / 100)) (1 + p / 100)
      (percent p confidence count : Draw ℝ S (Quantity ℝ)) := by
  have hbounds : 0 < p → 0 < 1 / (1 + p / 100) ∧ 1 / (1 + p / 100) < 1 + p / 100 := by
    intro hp
    have htop : 1 < 1 + p / 100 := by linarith
    have hlow : 1 / (1 + p / 100) < 1 := (div_lt_one (one_pos.trans htop)).mpr htop
    exact ⟨one_div_pos.mpr (one_pos.trans htop), hlow.trans htop⟩
  have h := (factor_putsBounds (S := S) hc hpos hcount _ _).after_require hbounds
    (.notPositive "Percentage" p)
  simpa only [percent, Scalar.ofNat_real, Nat.cast_one, Nat.cast_ofNat] using h

theorem decibels_putsBounds (x : ℝ) :
    PutsBounds (0 < x) n .one c (10 ^ (-x / 10)) (10 ^ (x / 10))
      (decibels x confidence count : Draw ℝ S (Quantity ℝ)) := by
  have hbounds : 0 < x → (0 : ℝ) < 10 ^ (-x / 10) ∧ (10 : ℝ) ^ (-x / 10) < 10 ^ (x / 10) := by
    intro hx
    refine ⟨Real.rpow_pos_of_pos (by norm_num) _, Real.rpow_lt_rpow_of_exponent_lt (by norm_num) ?_⟩
    linarith
  have hpow : ∀ k : ℝ, Checked.pow (10 : ℝ) k = .ok (10 ^ k) := fun k =>
    Checked.pow_of_pos (by norm_num)
  have h := (factor_putsBounds (S := S) hc hpos hcount _ _).after_require hbounds
    (.notPositive "Decibels" x)
  -- both powers are computed, so that they are the bounds
  simp only [decibels, Scalar.ofNat_real, Nat.cast_ofNat, hpow]
  exact h

end

end

end Sampler

/-! ## Ranges of a program -/

namespace RangeForm

open Session Evaluation

/-- The upper end of a form's interval. -/
noncomputable def highest (form : RangeForm) (x y : ℝ) : ℝ :=
  match form with
  | interval | uniform => y
  | normal => x + y

variable {S : Type} [RandomSource S ℝ]

/-- Around a middle the bounds are in order exactly if the width is above zero. -/
theorem sampler_putsBounds {form : RangeForm} (hform : form ≠ uniform) {confidence : Written ℝ} {c : ℝ}
    (hc : Sampler.centralBound confidence = .ok c) (hpos : 0 < c) {frame : SampleFrame ℝ}
    {n : SampleCount} (hcount : frame.count = .ok n) {u : CompoundUnit ℝ} (hunit : frame.unit.Gives u)
    (x y : ℝ) :
    Sampler.PutsBounds (¬form.Refuses x y) n u c (form.lowest x y) (form.highest x y)
      (form.sampler x y confidence frame : Draw ℝ S (Quantity ℝ)) := by
  cases form with
  | interval => exact (Sampler.interval_putsBounds hc hpos hcount hunit x y).of_iff not_le
  | uniform => exact absurd rfl hform
  | normal =>
    have hwidth : ¬y ≤ 0 ↔ x - y < x + y := by
      rw [not_le]
      constructor
      · intro hy
        linarith
      · intro hxy
        linarith
    exact (Sampler.normal_putsBounds hc hpos hcount hunit (x - y) (x + y)).of_iff hwidth

/-- The operands of a range are evaluated one after the other, and its rules make the bounds of them. -/
def FindsBounds (form : RangeForm) (body : TreeEvaluation ℝ S) (F : Frames ℝ) (first second : Node)
    (unit : Option String) (s t : Session ℝ S) (r : Bounds ℝ) : Prop :=
  ∃ x y s₁, (required first (evaluateNode body F first)).run s = (.ok x, s₁) ∧
    (required second (evaluateNode body F second)).run s₁ = (.ok y, t) ∧
    form.bounds t.units second x y unit = .ok r

/-- What a range other than a uniform one comes to, anywhere in a program. -/
theorem FindsBounds.run {form : RangeForm} (hform : form ≠ uniform) {body : TreeEvaluation ℝ S}
    {F : Frames ℝ} {first second : Node} {unit : Option String} {s t : Session ℝ S} {r : Bounds ℝ}
    (h : form.FindsBounds body F first second unit s t r) {c : ℝ}
    (hc : Sampler.centralBound t.settings.confidence = .ok c) (hpos : 0 < c) :
    (¬form.Refuses r.low r.high →
      ∃ f, Sampler.IsQuantile c (form.lowest r.low r.high) (form.highest r.low r.high) f ∧
        (evaluateNode body F (form.node first second unit)).run s =
          let drawn := Draw.sampleOf RandomSource.normal t.settings.sampleCount t.source
          (.ok (some ⟨.sample (drawn.1.map f), r.unit⟩), { t with source := drawn.2 })) ∧
    (form.Refuses r.low r.high → ∃ p,
      (evaluateNode body F (form.node first second unit)).run s = (.error (.parameter p), t)) := by
  obtain ⟨x, y, s₁, hx, hy, hr⟩ := h
  have hcount : (t.frame r.unit).count = .ok t.settings.sampleCount := rfl
  have hbounds := sampler_putsBounds (S := S) hform hc hpos hcount (UnitChoice.gives_unit r.unit)
    r.low r.high
  rw [run_node form hx hy hr]
  constructor
  · intro haccepted
    obtain ⟨f, hf, hrun⟩ := hbounds.draws haccepted
    exact ⟨f, hf, run_sampleIn (hrun t.source)⟩
  · intro hrefused
    obtain ⟨p, hp⟩ := hbounds.refuses (not_not.mpr hrefused) t.source
    exact ⟨p, run_sampleIn hp⟩

end RangeForm

namespace Sampler

open Evaluation Session

variable {S : Type} [RandomSource S ℝ]

/-- **Bounds at their quantiles.** The bound of the central interval is a positive number of deviations;
with it every sampler that is given by an interval puts its bounds at the two ends, whatever numbers are
drawn. So does a range of a program, other than a uniform one, anywhere in the program: with `low to
high` between the bounds, with `middle +- width` between their difference and their sum. -/
theorem bounds_at_quantiles {confidence : Written ℝ} (hmass : IsMass confidence)
    {frame : SampleFrame ℝ} {n : SampleCount} (hcount : frame.count = .ok n) {u : CompoundUnit ℝ}
    (hunit : frame.unit.Gives u) :
    ∃ c, centralBound confidence = .ok c ∧ 0 < c ∧
      (∀ a b, PutsBounds (0 < a ∧ a < b) n u c a b
        (lognormal a b confidence frame : Draw ℝ S (Quantity ℝ))) ∧
      (∀ a b, PutsBounds (a < b) n u c a b (normal a b confidence frame : Draw ℝ S (Quantity ℝ))) ∧
      (∀ a b, PutsBounds (a < b) n u c a b (interval a b confidence frame : Draw ℝ S (Quantity ℝ))) ∧
      (∀ p, PutsBounds (0 < p) n .one c (1 / (1 + p / 100)) (1 + p / 100)
        (percent p confidence frame.count : Draw ℝ S (Quantity ℝ))) ∧
      (∀ x, PutsBounds (0 < x) n .one c (10 ^ (-x / 10)) (10 ^ (x / 10))
        (decibels x confidence frame.count : Draw ℝ S (Quantity ℝ))) ∧
      ∀ form ≠ RangeForm.uniform, ∀ (body : TreeEvaluation ℝ S) (F : Frames ℝ) (first second : Node)
        (unit : Option String) (s t : Session ℝ S) (r : Bounds ℝ),
        form.FindsBounds body F first second unit s t r → t.settings.confidence = confidence →
        (¬form.Refuses r.low r.high →
          ∃ f, IsQuantile c (form.lowest r.low r.high) (form.highest r.low r.high) f ∧
            (evaluateNode body F (form.node first second unit)).run s =
              let drawn := Draw.sampleOf RandomSource.normal t.settings.sampleCount t.source
              (.ok (some ⟨.sample (drawn.1.map f), r.unit⟩), { t with source := drawn.2 })) ∧
        (form.Refuses r.low r.high → ∃ p,
          (evaluateNode body F (form.node first second unit)).run s = (.error (.parameter p), t)) := by
  have hc := centralBound_eq hmass
  have hpos := centralBound_pos hmass
  refine ⟨_, hc, hpos, lognormal_putsBounds hc hpos hcount hunit,
    normal_putsBounds hc hpos hcount hunit, interval_putsBounds hc hpos hcount hunit,
    percent_putsBounds hc hpos hcount, decibels_putsBounds hc hpos hcount, ?_⟩
  -- a range is run by its sampler, with the bounds that the program finds for it
  rintro form hform body F first second unit s t r hfinds rfl
  exact hfinds.run hform hc hpos

/-- From one to three kilometres, and two up to one more or less. -/
theorem quantiles_of_one_to_three :
    let frame : SampleFrame ℝ := ⟨.ok threeParticles.sampleCount, .text "km"⟩
    let two : Node := .number ⟨false, 2, 0⟩ none
    let one : Node := .number ⟨false, 1, 0⟩ none
    ∃ c, centralBound threeParticles.confidence = .ok c ∧
      PutsBounds (0 < (1 : ℝ) ∧ (1 : ℝ) < 3) threeParticles.sampleCount kilometres c 1 3
        (lognormal 1 3 threeParticles.confidence frame : Draw ℝ (ConstantSource ℝ) (Quantity ℝ)) ∧
      ∃ f, IsQuantile c (2 - 1) (2 + 1) f ∧ outcome (.normalRange two one none) atLowEnd =
        .ok (some ⟨.sample ((Draw.sampleOf RandomSource.normal threeParticles.sampleCount
          atLowEnd.source).1.map f), .one⟩) := by
  intro frame two one
  have hmass : IsMass threeParticles.confidence := reachable_atLowEnd.sound.1
  have hone : (Decimal.value ⟨false, 1, 0⟩ : ℝ) = 1 := by
    rw [(by decide : Decimal.value ⟨false, 1, 0⟩ = 1), Rat.cast_one]
  have htwo : (Decimal.value ⟨false, 2, 0⟩ : ℝ) = 2 := by
    rw [(by decide : Decimal.value ⟨false, 2, 0⟩ = 2), Rat.cast_ofNat]
  have hcount : frame.count = .ok threeParticles.sampleCount := rfl
  have hunit : frame.unit.Gives kilometres := scaleFree_kilometres.read
  have hfinds : RangeForm.normal.FindsBounds (evaluateWithin callLimit) [] two one none atLowEnd
      atLowEnd ⟨2, 1, .one⟩ := by
    refine ⟨_, _, _, RangeForm.run_number _ _ _ _, RangeForm.run_number _ _ _ _, ?_⟩
    rw [hone, htwo]
    exact RangeForm.normal.bounds_plain _ 2 1 rfl rfl
  have haccepted : ¬RangeForm.normal.Refuses 2 1 := by norm_num [RangeForm.Refuses]
  obtain ⟨c, hc, -, hlognormal, -, -, -, -, hrange⟩ :=
    bounds_at_quantiles (S := ConstantSource ℝ) hmass hcount hunit
  obtain ⟨f, hf, hrun⟩ :=
    (hrange .normal (by decide) _ _ _ _ _ _ _ _ hfinds rfl).1 haccepted
  exact ⟨c, hc, hlognormal 1 3, f, hf, congrArg Prod.fst hrun⟩

end Sampler

end Ballpark
