import Ballpark.Proofs.RealNumber
import Ballpark.Proofs.Evaluation
import Ballpark.Random.Interval

/-!
# Intervals of exact numbers

Samplers that are given by an interval, with real bounds. Bounds in the wrong order are refused before
anything is drawn; bounds in order are accepted, and every particle is then a fixed function of the
number that was drawn for it. The functions begin at the lower bound: a uniform number zero, or a
normal number at the lower end of the central interval, becomes the lower bound itself
(`Sampler.lognormal_low`, `Sampler.normal_low`). A lognormal number is the exponential of a normal one
between the logarithms of the bounds (`Sampler.lognormalNumber_eq`).
-/

namespace Ballpark

/-- A choice of a unit: the unit itself, or a text that is read as it without a number. -/
def UnitChoice.Gives (choice : UnitChoice ℝ) (u : CompoundUnit ℝ) : Prop :=
  match choice with
  | .unit v => v = u
  | .text t => CompoundUnit.ofText t = .ok (u, 1)

theorem UnitChoice.gives_unit (u : CompoundUnit ℝ) : (UnitChoice.unit u).Gives u := rfl

theorem UnitChoice.Gives.apply_eq {choice : UnitChoice ℝ} {u : CompoundUnit ℝ} (h : choice.Gives u)
    (sample : Sample ℝ) : choice.apply sample = .ok ⟨.sample sample, u⟩ := by
  cases choice with
  | unit v =>
    obtain rfl : v = u := h
    rfl
  | text t =>
    have htext : CompoundUnit.ofText t = .ok (u, 1) := h
    rw [apply, Quantity.ofText, htext]
    simp [Value.map, Sample.map, bind, Except.bind, pure, Except.pure]

namespace Sampler

open Evaluation

variable {S : Type} [RandomSource S ℝ]

/-- A share of the probability that an interval can hold. -/
abbrev IsMass (confidence : Written ℝ) : Prop :=
  confidence.toScalar ∈ Set.Ioo (0 : ℝ) 1

theorem centralBound_eq {confidence : Written ℝ} (h : IsMass confidence) :
    centralBound confidence = .ok (√2 * erfInv confidence.toScalar) := by
  have hmass : (Scalar.isPositive confidence.toScalar &&
      Scalar.lt confidence.toScalar (Scalar.ofNat 1 : ℝ)) = true := by
    simpa using h
  rw [centralBound, if_pos hmass, Scalar.ofNat_real]
  rfl

theorem centralBound_pos {confidence : Written ℝ} (h : IsMass confidence) :
    0 < √2 * erfInv confidence.toScalar :=
  mul_pos (Real.sqrt_pos.mpr two_pos) (erfInv_pos h.1 h.2)

/-! ## What is asked of the bounds -/

omit [RandomSource S ℝ] in
theorem run_require_of_true {c : Bool} (h : c = true) (p : ParameterFault ℝ) (s : S) :
    (Draw.require c p : Draw ℝ S PUnit).run s = (.ok ⟨⟩, s) := by
  rw [Draw.require, if_pos h]
  rfl

omit [RandomSource S ℝ] in
theorem run_require_of_false {c : Bool} (h : ¬c = true) (p : ParameterFault ℝ) (s : S) :
    (Draw.require c p : Draw ℝ S PUnit).run s = (.error (.parameter p), s) := by
  rw [Draw.require, if_neg h]
  rfl

omit [RandomSource S ℝ] in
/-- Real parameters are finite. -/
theorem run_requireFinite (sampler : String) (xs : List ℝ) (s : S) :
    (Draw.requireFinite sampler xs : Draw ℝ S PUnit).run s = (.ok ⟨⟩, s) :=
  run_require_of_true (List.all_eq_true.mpr fun _ _ => rfl) _ s

theorem lognormal_refused {a b : ℝ} (h : ¬(0 < a ∧ a < b)) (confidence : Written ℝ)
    (frame : SampleFrame ℝ) (s : S) :
    ∃ p, (lognormal a b confidence frame).run s = (.error (.parameter p), s) := by
  by_cases hbounds : 0 < a ∧ 0 < b
  · have hpositive : (Scalar.isPositive a && Scalar.isPositive b) = true := by simpa using hbounds
    have horder : ¬Scalar.lt a b = true := fun hab => h ⟨hbounds.1, by simpa using hab⟩
    refine ⟨.boundsOrder "Lognormal" a b, ?_⟩
    rw [lognormal, run_bind_of_ok (run_requireFinite _ _ s),
      run_bind_of_ok (run_require_of_true hpositive _ s)]
    exact run_bind_of_error (run_require_of_false horder _ s)
  · have hpositive : ¬(Scalar.isPositive a && Scalar.isPositive b) = true := by simpa using hbounds
    refine ⟨.boundsNotPositive a b, ?_⟩
    rw [lognormal, run_bind_of_ok (run_requireFinite _ _ s)]
    exact run_bind_of_error (run_require_of_false hpositive _ s)

theorem normal_refused {a b : ℝ} (h : b ≤ a) (confidence : Written ℝ) (frame : SampleFrame ℝ) (s : S) :
    ∃ p, (normal a b confidence frame).run s = (.error (.parameter p), s) := by
  have horder : ¬Scalar.lt a b = true := by simpa using h
  refine ⟨.boundsOrder "Normal" a b, ?_⟩
  rw [normal, run_bind_of_ok (run_requireFinite _ _ s)]
  exact run_bind_of_error (run_require_of_false horder _ s)

theorem uniform_refused {a b : ℝ} (h : b ≤ a) (frame : SampleFrame ℝ) (s : S) :
    ∃ p, (uniform a b frame).run s = (.error (.parameter p), s) := by
  have horder : ¬Scalar.lt a b = true := by simpa using h
  refine ⟨.boundsOrder "Uniform" a b, ?_⟩
  rw [uniform, run_bind_of_ok (run_requireFinite _ _ s)]
  exact run_bind_of_error (run_require_of_false horder _ s)

/-! ## What the particles are -/

/-- The lognormal number of a normal one, for bounds `c` deviations off the middle. -/
noncomputable def lognormalNumber (a b c z : ℝ) : ℝ :=
  Real.exp (Real.log √(a * b) + Real.log √(b / a) / c * z)

/-- The normal number of a standard one, for bounds `c` deviations off the middle. -/
noncomputable def normalNumber (a b c z : ℝ) : ℝ :=
  (a + b) / 2 + 0.5 * (b - a) / c * z

omit [RandomSource S ℝ] in
theorem run_ofExcept_of_ok {α : Type} {e : Except (Fault ℝ) α} {a : α} (h : e = .ok a) (s : S) :
    (Draw.ofExcept e).run s = (.ok a, s) := by
  rw [h]
  rfl

omit [RandomSource S ℝ] in
theorem run_resolve {frame : SampleFrame ℝ} {n : SampleCount} (h : frame.count = .ok n) (s : S) :
    (frame.resolve : Draw ℝ S SampleCount).run s = (.ok n, s) :=
  run_ofExcept_of_ok h s

omit [RandomSource S ℝ] in
theorem run_finish {frame : SampleFrame ℝ} {u : CompoundUnit ℝ} (h : frame.unit.Gives u)
    (sample : Sample ℝ) (s : S) :
    (frame.finish sample : Draw ℝ S (Quantity ℝ)).run s = (.ok ⟨.sample sample, u⟩, s) :=
  run_ofExcept_of_ok (h.apply_eq sample) s

/-- Normal numbers are drawn, and the particles are made of them. -/
theorem run_normalSample {frame : SampleFrame ℝ} {u : CompoundUnit ℝ} (h : frame.unit.Gives u)
    (n : SampleCount) (f : ℝ → ℝ) (s : S) :
    (do frame.finish ((← Draw.normalSample n).map f) : Draw ℝ S (Quantity ℝ)).run s =
      let drawn := Draw.sampleOf RandomSource.normal n s
      (.ok ⟨.sample (drawn.1.map f), u⟩, drawn.2) := by
  have hdraw : (Draw.normalSample n : Draw ℝ S (Sample ℝ)).run s =
      (.ok (Draw.sampleOf RandomSource.normal n s).1, (Draw.sampleOf RandomSource.normal n s).2) := rfl
  rw [run_bind_of_ok hdraw]
  exact run_finish h _ _

/-- The logarithm of the root of a positive number. -/
theorem log_sqrt {x : ℝ} (hx : 0 < x) :
    (do Checked.log (← Checked.sqrt x)) = (.ok (Real.log √x) : Except (Fault ℝ) ℝ) := by
  simp [Checked.sqrt, Checked.log, hx, hx.le, bind, Except.bind, Scalar.apply, RealNumber.apply]

section

variable {frame : SampleFrame ℝ} {n : SampleCount} (hcount : frame.count = .ok n) {u : CompoundUnit ℝ}
  (hunit : frame.unit.Gives u)
include hcount hunit

theorem lognormal_run {a b c : ℝ} (ha : 0 < a) (hab : a < b) {confidence : Written ℝ}
    (hc : centralBound confidence = .ok c) (hpos : 0 < c) (s : S) :
    (lognormal a b confidence frame).run s =
      let drawn := Draw.sampleOf RandomSource.normal n s
      (.ok ⟨.sample (drawn.1.map (lognormalNumber a b c)), u⟩, drawn.2) := by
  have hb := ha.trans hab
  have hpositive : (Scalar.isPositive a && Scalar.isPositive b) = true := by simp [ha, hb]
  have horder : Scalar.lt a b = true := by simpa using hab
  have hspread : (do Checked.div (← Checked.log (← Checked.sqrt (b / a))) (← centralBound confidence)) =
      (.ok (Real.log √(b / a) / c) : Except (Fault ℝ) ℝ) := by
    rw [← bind_assoc, log_sqrt (div_pos hb ha), hc]
    exact Checked.div_of_ne_zero hpos.ne'
  -- the three checks pass, then the middle and the deviation are computed
  rw [lognormal, run_bind_of_ok (run_requireFinite _ _ s),
    run_bind_of_ok (run_require_of_true hpositive _ s),
    run_bind_of_ok (run_require_of_true horder _ s), run_bind_of_ok (run_resolve hcount s),
    run_bind_of_ok (run_ofExcept_of_ok (log_sqrt (mul_pos ha hb)) s),
    run_bind_of_ok (run_ofExcept_of_ok hspread s)]
  exact run_normalSample hunit n (lognormalNumber a b c) s

theorem normal_run {a b c : ℝ} (hab : a < b) {confidence : Written ℝ}
    (hc : centralBound confidence = .ok c) (hpos : 0 < c) (s : S) :
    (normal a b confidence frame).run s =
      let drawn := Draw.sampleOf RandomSource.normal n s
      (.ok ⟨.sample (drawn.1.map (normalNumber a b c)), u⟩, drawn.2) := by
  have horder : Scalar.lt a b = true := by simpa using hab
  have hspread : (do Checked.div (Scalar.ofRat 0.5 * (b - a)) (← centralBound confidence)) =
      (.ok (0.5 * (b - a) / c) : Except (Fault ℝ) ℝ) := by
    have hhalf : (Scalar.ofRat 0.5 : ℝ) = 0.5 := by norm_num
    rw [hc, hhalf]
    exact Checked.div_of_ne_zero hpos.ne'
  have hmean : (a + b) / (Scalar.ofNat 2 : ℝ) = (a + b) / 2 := by simp
  rw [normal, run_bind_of_ok (run_requireFinite _ _ s),
    run_bind_of_ok (run_require_of_true horder _ s), run_bind_of_ok (run_resolve hcount s)]
  simp only [hmean]
  rw [run_bind_of_ok (run_ofExcept_of_ok hspread s)]
  exact run_normalSample hunit n (normalNumber a b c) s

end

theorem uniform_run {a b : ℝ} (hab : a < b) (n : SampleCount) (unit : CompoundUnit ℝ) (s : S) :
    (uniform a b ⟨.ok n, .unit unit⟩).run s =
      let drawn := Draw.sampleOf RandomSource.uniform n s
      (.ok ⟨.sample (drawn.1.map fun u => a + (b - a) * u), unit⟩, drawn.2) := by
  have horder : Scalar.lt a b = true := by simpa using hab
  rw [uniform, run_bind_of_ok (run_requireFinite _ _ s),
    run_bind_of_ok (run_require_of_true horder _ s), run_bind_of_ok (run_resolve rfl s)]
  rfl

/-! ## The lower end -/

/-- A lognormal number is the exponential of a normal one. -/
theorem lognormalNumber_eq {a b : ℝ} (ha : 0 < a) (hb : 0 < b) (c z : ℝ) :
    lognormalNumber a b c z = Real.exp (normalNumber (Real.log a) (Real.log b) c z) := by
  rw [lognormalNumber, normalNumber, Real.log_sqrt (mul_pos ha hb).le,
    Real.log_sqrt (div_pos hb ha).le, Real.log_mul ha.ne' hb.ne', Real.log_div hb.ne' ha.ne']
  congr 1
  ring

theorem normal_low {a b c : ℝ} (hc : 0 < c) : normalNumber a b c (-c) = a := by
  rw [normalNumber]
  field_simp
  ring

/-- A number at the lower end of the central interval becomes the lower bound. -/
theorem lognormal_low {a b c : ℝ} (ha : 0 < a) (hb : 0 < b) (hc : 0 < c) :
    lognormalNumber a b c (-c) = a := by
  rw [lognormalNumber_eq ha hb, normal_low hc, Real.exp_log ha]

end Sampler

end Ballpark
