import Ballpark.Builtin.Distribution
import Ballpark.Proofs.Coupling

/-!
# How much samplers draw

Most samplers take one number for each particle, whatever their parameters are: if they succeed, they
leave the source as so many steps of one kind do (`Distribution.takes_pace`). The gamma family draws until
enough candidates are accepted, and counts are drawn in one of two ways, so there it depends on the
parameters how much is drawn.
-/

namespace Ballpark

variable {R S : Type} {α β : Type}

/-- Every successful run of a sampler moves the source by a step. -/
def Draw.Takes (step : S → S) (d : Draw R S α) : Prop :=
  ∀ s a t, d.run s = (.ok a, t) → t = step s

namespace Draw.Takes

variable {step next : S → S} {d : Draw R S α} {f : α → Draw R S β}

theorem ofExcept (e : Except (Fault R) α) : Takes id (Draw.ofExcept e : Draw R S α) :=
  fun _ _ _ h => (congrArg Prod.snd h).symm

theorem throw (e : Fault R) : Takes step (MonadExcept.throw e : Draw R S α) :=
  fun _ _ _ h => nomatch h

theorem lift (x : StateM S α) : Takes (fun s => (x.run s).2) (ExceptT.lift x : Draw R S α) :=
  fun _ _ _ h => (congrArg Prod.snd h).symm

/-- What draws nothing may come first. -/
theorem bind_of_free (hd : Takes id d) (hf : ∀ a, Takes step (f a)) : Takes step (d >>= f) := by
  intro s b u h
  obtain ⟨a, t, hrun, hrest⟩ := Evaluation.run_bind_eq_ok.mp h
  rw [hf a t b u hrest, hd s a t hrun, id]

/-- What draws nothing may come last. -/
theorem bind_free (hd : Takes step d) (hf : ∀ a, Takes id (f a)) : Takes step (d >>= f) := by
  intro s b u h
  obtain ⟨a, t, hrun, hrest⟩ := Evaluation.run_bind_eq_ok.mp h
  rw [hf a t b u hrest, hd s a t hrun, id]

theorem ite {c : Prop} [Decidable c] {e : Draw R S α} (hd : Takes step d) (he : Takes step e) :
    Takes step (if c then d else e) := by
  split
  · exact hd
  · exact he

/-- How a fault is shown does not matter. -/
theorem adapt (hd : Takes step d) (f : Fault R → Fault R) : Takes step (d.adapt f : Draw R S α) := by
  intro s a t h
  have hrun : (Except.mapError f (d.run s).1, (d.run s).2) = (.ok a, t) := h
  rcases hcase : d.run s with ⟨e | b, u⟩
  · rw [hcase] at hrun
    cases hrun
  · rw [hcase] at hrun
    cases hrun
    exact hd _ _ _ hcase

theorem require (condition : Bool) (otherwise : ParameterFault R) :
    Takes id (Draw.require condition otherwise : Draw R S PUnit) :=
  ofExcept _

theorem requireFinite [Scalar R] (sampler : String) (values : List R) :
    Takes id (Draw.requireFinite sampler values : Draw R S PUnit) :=
  ofExcept _

theorem finish [Scalar R] (frame : SampleFrame R) (s : Sample R) :
    Takes id (frame.finish s : Draw R S (Quantity R)) :=
  ofExcept _

/-- The number of particles is the one of the frame. -/
theorem resolve [Scalar R] {frame : SampleFrame R} {n : SampleCount} (hcount : frame.count = .ok n)
    {k : SampleCount → Draw R S β} (hk : Takes step (k n)) : Takes step (frame.resolve >>= k) := by
  intro s b u h
  obtain ⟨a, t, hrun, hrest⟩ := Evaluation.run_bind_eq_ok.mp h
  rw [SampleFrame.resolve, Draw.ofExcept, hcount] at hrun
  cases hrun
  exact hk _ _ _ hrest

end Draw.Takes

/-! ## Samplers with a fixed pace -/

namespace Sampler

variable [Scalar R] [RandomSource S R]

/-- So many normal numbers. -/
def normalPace (n : SampleCount) (s : S) : S :=
  (Draw.sampleOf RandomSource.normal n s).2

/-- So many uniform numbers. -/
def uniformPace (n : SampleCount) (s : S) : S :=
  (Draw.sampleOf RandomSource.uniform n s).2

section

variable {frame : SampleFrame R} {n : SampleCount} (hcount : frame.count = .ok n)
include hcount

open Draw.Takes

theorem lognormal_takes (a b : R) (confidence : Written R) :
    Draw.Takes (normalPace n : S → S) (lognormal a b confidence frame) := by
  refine bind_of_free (requireFinite _ _) fun _ => ?_
  refine bind_of_free (require _ _) fun _ => ?_
  refine bind_of_free (require _ _) fun _ => resolve hcount ?_
  refine bind_of_free (ofExcept _) fun center => ?_
  refine bind_of_free (ofExcept _) fun spread => ?_
  exact bind_free (lift _) fun z => finish frame _

theorem normal_takes (a b : R) (confidence : Written R) :
    Draw.Takes (normalPace n : S → S) (normal a b confidence frame) := by
  refine bind_of_free (requireFinite _ _) fun _ => ?_
  refine bind_of_free (require _ _) fun _ => resolve hcount ?_
  refine bind_of_free (ofExcept _) fun spread => ?_
  exact bind_free (lift _) fun z => finish frame _

theorem interval_takes (a b : R) (confidence : Written R) :
    Draw.Takes (normalPace n : S → S) (interval a b confidence frame) :=
  ite (lognormal_takes hcount a b confidence) (normal_takes hcount a b confidence)

theorem plusMinus_takes (mean deviation : R) :
    Draw.Takes (normalPace n : S → S) (plusMinus mean deviation frame) := by
  refine bind_of_free (requireFinite _ _) fun _ => ?_
  refine bind_of_free (require _ _) fun _ => resolve hcount ?_
  exact bind_free (lift _) fun z => finish frame _

omit hcount in
theorem uniformBetween_takes (a b : R) :
    Draw.Takes (uniformPace n : S → S) (uniformBetween a b n : Draw R S (Sample R)) :=
  ite (bind_free (lift _) fun _ => ofExcept _) (throw _)

theorem uniform_takes (a b : R) : Draw.Takes (uniformPace n : S → S) (uniform a b frame) := by
  refine bind_of_free (requireFinite _ _) fun _ => ?_
  refine bind_of_free (require _ _) fun _ => resolve hcount ?_
  exact bind_free (uniformBetween_takes a b) fun s => finish frame s

theorem exponential_takes (rate : R) : Draw.Takes (uniformPace n : S → S) (exponential rate frame) := by
  refine bind_of_free (requireFinite _ _) fun _ => ?_
  refine bind_of_free (require _ _) fun _ => resolve hcount ?_
  exact bind_free (lift _) fun u => finish frame _

theorem exponentialMean_takes (mean : R) :
    Draw.Takes (uniformPace n : S → S) (exponentialMean mean frame) :=
  bind_of_free (require _ _) fun _ => exponential_takes hcount _

theorem weighted_takes (values weights : List R) :
    Draw.Takes (uniformPace n : S → S) (weighted values weights frame) := by
  rcases values with _ | ⟨first, values⟩
  · exact throw _
  · refine bind_of_free (require _ _) fun _ => ?_
    refine bind_of_free (requireFinite _ _) fun _ => ?_
    refine bind_of_free (require _ _) fun _ => ?_
    refine bind_of_free (require _ _) fun _ => resolve hcount ?_
    exact bind_free (lift _) fun u => finish frame _

theorem percent_takes (percentage : R) (confidence : Written R) :
    Draw.Takes (normalPace n : S → S) (percent percentage confidence frame.count) :=
  bind_of_free (require _ _) fun _ =>
    lognormal_takes (show (SampleFrame.plain frame.count).count = .ok n from hcount) _ _ _

theorem decibels_takes (size : R) (confidence : Written R) :
    Draw.Takes (normalPace n : S → S) (decibels size confidence frame.count) := by
  refine bind_of_free (require _ _) fun _ => ?_
  refine bind_of_free (ofExcept _) fun low => ?_
  refine bind_of_free (ofExcept _) fun high => ?_
  exact lognormal_takes (show (SampleFrame.plain frame.count).count = .ok n from hcount) _ _ _

end

end Sampler

namespace Distribution

/-- Does a distribution draw the same amount whatever its parameters are? -/
def isPaced : Distribution → Bool
  | interval | lognormal | normal | uniform | plusMinus | exponential | exponentialMean | percent
  | decibels => true
  | outOf | against | beta | gamma | poisson | binomial => false

variable [Scalar R] [RandomSource S R]

/-- What a paced distribution takes from the source. -/
def pace (n : SampleCount) : Distribution → S → S
  | uniform | exponential | exponentialMean => Sampler.uniformPace n
  | _ => Sampler.normalPace n

/-- **A paced distribution takes from the source what its name says**, with any parameters. -/
theorem takes_pace {d : Distribution} (hd : d.isPaced = true) {confidence : Written R}
    {frame : SampleFrame R} {n : SampleCount} (hcount : frame.count = .ok n) {parameters : List R}
    {call : Draw R S (Quantity R)} (hcall : d.sampler? confidence frame parameters = some call) :
    Draw.Takes (d.pace n) call := by
  unfold sampler? at hcall
  -- the cases come in the order of the distributions
  split at hcall <;> cases hcall
  · exact Sampler.interval_takes hcount _ _ _
  · exact Sampler.lognormal_takes hcount _ _ _
  · exact Sampler.normal_takes hcount _ _ _
  · exact Sampler.uniform_takes hcount _ _
  · exact Sampler.plusMinus_takes hcount _ _
  · cases hd
  · cases hd
  · cases hd
  · cases hd
  · cases hd
  · cases hd
  · exact Sampler.exponential_takes hcount _
  · exact Sampler.exponentialMean_takes hcount _
  · cases hd
  · exact Sampler.percent_takes hcount _ _
  · exact Sampler.decibels_takes hcount _ _
  · exact Sampler.decibels_takes hcount _ _

end Distribution

end Ballpark
