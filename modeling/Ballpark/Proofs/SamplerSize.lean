import Ballpark.Constant
import Ballpark.Proofs.Counting
import Ballpark.Proofs.Evaluation
import Ballpark.Proofs.Filling
import Ballpark.Proofs.ParticleCount

/-!
# Samplers give as many particles as they are asked for

Every sampler that succeeds gives exactly as many particles as its frame says
(`Distribution.sampler_fits`). For most of them this is the number of draws they make. The gamma
family fills places by passes: a pass keeps the number of places, and the passes end when none is empty.
Counts are made by passes over a list of particles too, or one by one. Constants are exact or drawn by
one of these samplers, so what a session remembers of them fits as well (`Constant.remember_fits`).
-/

namespace Ballpark

variable {R S : Type} {α β : Type}

/-- Every successful run of a sampler has a result with a property. -/
def Draw.Yields (P : α → Prop) (d : Draw R S α) : Prop :=
  ∀ s a t, d.run s = (.ok a, t) → P a

namespace Draw.Yields

variable {P : α → Prop} {Q : β → Prop} {d : Draw R S α} {f : α → Draw R S β}

theorem pure {a : α} (h : P a) : Yields P (Pure.pure a : Draw R S α) := by
  intro s b t hrun
  cases hrun
  exact h

theorem throw (e : Fault R) : Yields P (MonadExcept.throw e : Draw R S α) :=
  fun _ _ _ h => nomatch h

theorem ofExcept {e : Except (Fault R) α} (h : ∀ a, e = .ok a → P a) :
    Yields P (Draw.ofExcept e : Draw R S α) :=
  fun _ a _ hrun => h a (congrArg Prod.fst hrun)

theorem lift {x : StateM S α} (h : ∀ s, P (x.run s).1) : Yields P (ExceptT.lift x : Draw R S α) := by
  intro s a t hrun
  have hvalue : (x.run s).1 = a := Except.ok.inj (congrArg Prod.fst hrun)
  exact hvalue ▸ h s

theorem bind (hd : Yields P d) (hf : ∀ a, P a → Yields Q (f a)) : Yields Q (d >>= f) := by
  intro s b u h
  obtain ⟨a, t, hrun, hrest⟩ := Evaluation.run_bind_eq_ok.mp h
  exact hf a (hd s a t hrun) t b u hrest

/-- What comes first does not matter if the rest has the property whatever it is given. -/
theorem after (hf : ∀ a, Yields Q (f a)) : Yields Q (d >>= f) :=
  bind (P := fun _ => True) (fun _ _ _ _ => True.intro) fun a _ => hf a

theorem ite {c : Prop} [Decidable c] {e : Draw R S α} (hd : c → Yields P d) (he : ¬c → Yields P e) :
    Yields P (if c then d else e) := by
  split
  · exact hd ‹_›
  · exact he ‹_›

/-- How a fault is shown does not matter. -/
theorem adapt (hd : Yields P d) (f : Fault R → Fault R) : Yields P (d.adapt f : Draw R S α) := by
  intro s a t h
  have hrun : (Except.mapError f (d.run s).1, (d.run s).2) = (.ok a, t) := h
  rcases hcase : d.run s with ⟨e | b, u⟩
  · rw [hcase] at hrun
    cases hrun
  · rw [hcase] at hrun
    cases hrun
    exact hd _ _ _ hcase

/-- The number of particles is the one of the frame. -/
theorem resolve [Scalar R] {frame : SampleFrame R} {n : SampleCount} (hcount : frame.count = .ok n)
    {k : SampleCount → Draw R S β} (hk : Yields Q (k n)) : Yields Q (frame.resolve >>= k) := by
  refine bind (P := (· = n)) (ofExcept fun m hm => ?_) fun m hm => hm ▸ hk
  rw [hcount] at hm
  exact (Except.ok.inj hm).symm

end Draw.Yields

/-! ## Draws -/

theorem Draw.length_repeated (step : S → R × S) (n : Nat) (s : S) : (repeated step n s).1.length = n := by
  induction n generalizing s with
  | zero => rfl
  | succ n ih =>
    rw [repeated, List.length_cons, ih]

theorem Draw.size_sampleOf (step : S → R × S) (n : SampleCount) (s : S) :
    (sampleOf step n s).1.size = n.size := by
  have hpos := n.positive
  rw [sampleOf, Sample.size, length_repeated]
  omega

theorem Draw.run_normals [RandomSource S R] {m : Nat} {s t : S} {x : List R}
    (h : repeated RandomSource.normal m s = (x, t)) : (normals m : Draw R S (List R)).run s = (.ok x, t) := by
  have hrun : (normals m : Draw R S (List R)).run s =
      (.ok (repeated RandomSource.normal m s).1, (repeated RandomSource.normal m s).2) := rfl
  rw [hrun, h]

theorem Draw.run_uniforms [RandomSource S R] {m : Nat} {s t : S} {u : List R}
    (h : repeated RandomSource.uniform m s = (u, t)) : (uniforms m : Draw R S (List R)).run s = (.ok u, t) := by
  have hrun : (uniforms m : Draw R S (List R)).run s =
      (.ok (repeated RandomSource.uniform m s).1, (repeated RandomSource.uniform m s).2) := rfl
  rw [hrun, h]

/-- A sampler of a quantity that fits a number of particles. -/
abbrev Draw.Fits (n : SampleCount) (d : Draw R S (Quantity R)) : Prop :=
  d.Yields (Quantity.Fits n)

/-- A sampler of as many numbers. -/
abbrev Draw.Sized (n : SampleCount) (d : Draw R S (Sample R)) : Prop :=
  d.Yields (·.size = n.size)

namespace Sampler

variable [Scalar R] {n : SampleCount}

open Draw.Yields

theorem finish_fits (frame : SampleFrame R) {s : Sample R} (hs : s.size = n.size) :
    Draw.Fits n (frame.finish s : Draw R S (Quantity R)) := by
  refine ofExcept fun q hq => ?_
  rw [UnitChoice.apply.eq_def] at hq
  split at hq
  · cases hq
    exact .inr hs
  · exact Quantity.ofText_fits (Value.fits_sample hs) hq

omit [Scalar R] in
theorem toSample_sized {xs : List R} (hxs : xs.length = n.size) :
    Draw.Sized n (toSample xs : Draw R S (Sample R)) := by
  rw [toSample]
  rcases xs with _ | ⟨x, rest⟩
  · exact throw _
  · exact pure hxs

omit [Scalar R] in
theorem run_toSample_eq_ok {xs : List R} {y : Sample R} {s t : S} :
    (toSample xs : Draw R S (Sample R)).run s = (.ok y, t) ↔ xs = y.toList ∧ s = t := by
  rcases xs with _ | ⟨x, xs⟩
  · exact iff_of_false (fun h => by cases h) fun h => by cases h.1
  · constructor
    · intro h
      cases h
      exact ⟨rfl, rfl⟩
    · rintro ⟨hxs, rfl⟩
      cases hxs
      rfl

variable [RandomSource S R]

omit [Scalar R] in
theorem normalSample_sized (n : SampleCount) : Draw.Sized n (Draw.normalSample n : Draw R S (Sample R)) :=
  lift fun s => Draw.size_sampleOf _ n s

omit [Scalar R] in
theorem uniformSample_sized (n : SampleCount) : Draw.Sized n (Draw.uniformSample n : Draw R S (Sample R)) :=
  lift fun s => Draw.size_sampleOf _ n s

section

variable {frame : SampleFrame R} (hcount : frame.count = .ok n)
include hcount

/-! ## Intervals -/

theorem lognormal_fits (a b : R) (confidence : Written R) :
    Draw.Fits n (lognormal a b confidence frame : Draw R S (Quantity R)) := by
  refine after fun _ => after fun _ => after fun _ => resolve hcount ?_
  refine after fun center => after fun spread => (normalSample_sized n).bind fun z hz => ?_
  exact finish_fits frame ((Sample.size_map _ z).trans hz)

theorem normal_fits (a b : R) (confidence : Written R) :
    Draw.Fits n (normal a b confidence frame : Draw R S (Quantity R)) := by
  refine after fun _ => after fun _ => resolve hcount ?_
  refine after fun spread => (normalSample_sized n).bind fun z hz => ?_
  exact finish_fits frame ((Sample.size_map _ z).trans hz)

theorem interval_fits (a b : R) (confidence : Written R) :
    Draw.Fits n (interval a b confidence frame : Draw R S (Quantity R)) :=
  ite (fun _ => lognormal_fits hcount a b confidence) fun _ => normal_fits hcount a b confidence

theorem plusMinus_fits (mean deviation : R) :
    Draw.Fits n (plusMinus mean deviation frame : Draw R S (Quantity R)) := by
  refine after fun _ => after fun _ => resolve hcount ?_
  refine (normalSample_sized n).bind fun z hz => ?_
  exact finish_fits frame ((Sample.size_map _ z).trans hz)

theorem uniform_fits (a b : R) : Draw.Fits n (uniform a b frame : Draw R S (Quantity R)) := by
  refine after fun _ => after fun _ => resolve hcount ?_
  have hbetween : Draw.Sized n (uniformBetween a b n : Draw R S (Sample R)) := by
    refine ite (fun _ => ?_) fun _ => throw _
    exact (uniformSample_sized n).bind fun u hu => pure ((Sample.size_map _ u).trans hu)
  exact hbetween.bind fun s hs => finish_fits frame hs

theorem exponential_fits (rate : R) :
    Draw.Fits n (exponential rate frame : Draw R S (Quantity R)) := by
  refine after fun _ => after fun _ => resolve hcount ?_
  refine (uniformSample_sized n).bind fun u hu => ?_
  exact finish_fits frame ((Sample.size_map _ u).trans hu)

theorem exponentialMean_fits (mean : R) :
    Draw.Fits n (exponentialMean mean frame : Draw R S (Quantity R)) :=
  after fun _ => exponential_fits hcount _

theorem weighted_fits (values weights : List R) :
    Draw.Fits n (weighted values weights frame : Draw R S (Quantity R)) := by
  rcases values with _ | ⟨first, rest⟩
  · exact throw _
  · refine after fun _ => after fun _ => after fun _ => after fun _ => resolve hcount ?_
    refine (uniformSample_sized n).bind fun u hu => ?_
    exact finish_fits frame ((Sample.size_map _ u).trans hu)

end

theorem percent_fits (percentage : R) (confidence : Written R) :
    Draw.Fits n (percent percentage confidence (.ok n) : Draw R S (Quantity R)) :=
  after fun _ => lognormal_fits rfl _ _ confidence

theorem decibels_fits (size : R) (confidence : Written R) :
    Draw.Fits n (decibels size confidence (.ok n) : Draw R S (Quantity R)) :=
  after fun _ => after fun _ => after fun _ => lognormal_fits rfl _ _ confidence

/-! ## The gamma family -/

omit [Scalar R] in
theorem normals_length (m : Nat) :
    Draw.Yields (fun x => x.length = m) (Draw.normals m : Draw R S (List R)) :=
  lift fun s => Draw.length_repeated _ m s

omit [Scalar R] in
theorem uniforms_length (m : Nat) :
    Draw.Yields (fun u => u.length = m) (Draw.uniforms m : Draw R S (List R)) :=
  lift fun s => Draw.length_repeated _ m s

/-- A pass draws a candidate for each pending index. -/
theorem gammaPass_sound (g : GammaShape R) {m : Nat} {f : Filling R} (h : f.Sound m) :
    Draw.Yields (Filling.Sound m) (gammaPass g f : Draw R S (Filling R)) := by
  refine (normals_length _).bind fun x hx => (uniforms_length _).bind fun u hu => pure (h.fill ?_)
  rw [List.length_zipWith, hx, hu, Nat.min_self]

/-- The passes of the gamma sampler end when all places are full. -/
theorem gammaPasses_full (g : GammaShape R) (limit : Nat) {m : Nat} {f : Filling R} (h : f.Sound m) :
    Draw.Yields (fun full => full.Sound m ∧ full.pending = [])
      (gammaPasses g limit f : Draw R S (Filling R)) := by
  induction limit generalizing f with
  | zero => exact throw _
  | succ limit ih =>
    refine ite (fun hdone => pure ⟨h, List.isEmpty_iff.mp hdone⟩) fun _ => ?_
    exact (gammaPass_sound g h).bind fun next hnext => ih hnext

theorem gammaLarge_sized (limit : Nat) (shape : R) (n : SampleCount) :
    Draw.Sized n (gammaLarge limit shape n : Draw R S (Sample R)) := by
  refine (gammaPasses_full _ _ (Filling.sound_start _)).bind fun full hfull => toSample_sized ?_
  exact hfull.1.length_numbers hfull.2

theorem standardGamma_sized (shape : R) (n : SampleCount) :
    Draw.Sized n (standardGamma shape n : Draw R S (Sample R)) := by
  refine ite (fun _ => ?_) fun _ => gammaLarge_sized _ shape n
  refine (gammaLarge_sized _ _ n).bind fun boosted hboosted => ?_
  refine (uniformSample_sized n).bind fun u hu => pure ?_
  rw [Sample.size_zipWith, hboosted, hu, max_self]

section

variable {frame : SampleFrame R} (hcount : frame.count = .ok n)
include hcount

theorem gamma_fits (shape scale : R) :
    Draw.Fits n (gamma shape scale frame : Draw R S (Quantity R)) := by
  refine after fun _ => after fun _ => after fun _ => resolve hcount ?_
  refine (standardGamma_sized shape n).bind fun y hy => ?_
  exact finish_fits frame ((Sample.size_map _ y).trans hy)

theorem beta_fits (a b : R) : Draw.Fits n (beta a b frame : Draw R S (Quantity R)) := by
  refine after fun _ => after fun _ => after fun _ => resolve hcount ?_
  refine (standardGamma_sized a n).bind fun x hx => (standardGamma_sized b n).bind fun y hy => ?_
  refine finish_fits frame ?_
  rw [Sample.size_zipWith, hx, hy, max_self]

end

theorem outOf_fits (successes total : R) :
    Draw.Fits n (outOf successes total (.ok n) : Draw R S (Quantity R)) :=
  after fun _ => after fun _ => beta_fits rfl _ _

theorem against_fits (pro contra : R) :
    Draw.Fits n (against pro contra (.ok n) : Draw R S (Quantity R)) :=
  after fun _ => after fun _ => beta_fits rfl _ _

/-! ## Counts -/

/-- The passes over counted particles keep their number. -/
theorem countingPasses_length (limit : R) (passes : Nat) (particles : List (Counting R)) :
    Draw.Yields (fun counted => counted.length = particles.length)
      (countingPasses limit passes particles : Draw R S (List (Counting R))) := by
  induction passes generalizing particles with
  | zero => exact throw _
  | succ passes ih =>
    refine ite (fun _ => ?_) fun _ => pure rfl
    have hpass : Draw.Yields (fun next => next.length = particles.length)
        (countingPass limit particles : Draw R S (List (Counting R))) :=
      after fun u => pure (length_stepAll limit (length_handOut particles u))
    exact hpass.bind fun next hnext => hnext ▸ ih next

theorem countedOut_sized (passes : Nat) (rate : R) (n : SampleCount) :
    Draw.Sized n (countedOut passes rate n : Draw R S (Sample R)) := by
  refine (countingPasses_length _ _ _).bind fun counted hcounted => toSample_sized ?_
  rw [List.length_map, hcounted, List.length_replicate]

theorem trialCounts_length (trials : Nat) (p : R) (m : Nat) :
    Draw.Yields (fun counts => counts.length = m) (trialCounts trials p m : Draw R S (List R)) := by
  induction m with
  | zero => exact pure rfl
  | succ m ih => exact after fun u => ih.bind fun counts hcounts => pure (congrArg (· + 1) hcounts)

section

variable {frame : SampleFrame R} (hcount : frame.count = .ok n)
include hcount

theorem poisson_fits (rate : R) : Draw.Fits n (poisson rate frame : Draw R S (Quantity R)) := by
  refine after fun _ => after fun _ => resolve hcount (ite (fun _ => ?_) fun _ => ?_)
  · exact (countedOut_sized _ _ _).bind fun s hs => finish_fits frame hs
  · refine (normalSample_sized n).bind fun z hz => ?_
    exact finish_fits frame ((Sample.size_map _ z).trans hz)

theorem binomial_fits (trials p : R) :
    Draw.Fits n (binomial trials p frame : Draw R S (Quantity R)) := by
  refine after fun _ => after fun _ => after fun _ => resolve hcount (ite (fun _ => ?_) fun _ => ?_)
  · refine (trialCounts_length _ _ _).bind fun counts hcounts => ?_
    exact (toSample_sized hcounts).bind fun s hs => finish_fits frame hs
  · refine (normalSample_sized n).bind fun z hz => ?_
    exact finish_fits frame ((Sample.size_map _ z).trans hz)

end

end Sampler

/-! ## Distributions, builtin functions and constants -/

variable [Scalar R] [RandomSource S R] {n : SampleCount}

/-- **Every distribution** gives as many particles as it is asked for. -/
theorem Distribution.sampler_fits {d : Distribution} {confidence : Written R} {arguments : List R}
    {sampler : Draw R S (Quantity R)}
    (hsampler : d.sampler? confidence (.plain (.ok n)) arguments = some sampler) :
    Draw.Fits n sampler := by
  have h : (SampleFrame.plain (.ok n) : SampleFrame R).count = .ok n := rfl
  rw [Distribution.sampler?.eq_def] at hsampler
  split at hsampler
  all_goals cases hsampler
  · exact Sampler.interval_fits h _ _ _
  · exact Sampler.lognormal_fits h _ _ _
  · exact Sampler.normal_fits h _ _ _
  · exact Sampler.uniform_fits h _ _
  · exact Sampler.plusMinus_fits h _ _
  · exact Sampler.outOf_fits _ _
  · exact Sampler.against_fits _ _
  · exact Sampler.beta_fits h _ _
  · exact Sampler.gamma_fits h _ _
  · exact Sampler.gamma_fits h _ _
  · exact Sampler.poisson_fits h _
  · exact Sampler.exponential_fits h _
  · exact Sampler.exponentialMean_fits h _
  · exact Sampler.binomial_fits h _ _
  · exact Sampler.percent_fits _ _
  · exact Sampler.decibels_fits _ _
  · exact Sampler.decibels_fits _ _

theorem Builtin.call_fits {function : Builtin} {confidence : Written R} {arguments : List (Quantity R)}
    (harguments : ∀ q ∈ arguments, q.Fits n) {call : Draw R S (Quantity R)}
    (hcall : function.call? confidence (.plain (.ok n)) arguments = some call) : Draw.Fits n call := by
  cases function with
  | distribution d => exact Distribution.sampler_fits hcall
  | math f =>
    obtain ⟨e, he, rfl⟩ := Option.map_eq_some_iff.mp hcall
    exact .ofExcept fun _ h => (MathFunction.operation_preserves f).call harguments he h

theorem Constant.draw_fits (constant : Constant R) (confidence : Written R) :
    Draw.Fits n (constant.draw confidence (.ok n) : Draw R S (Quantity R)) := by
  have hcount : ∀ unit, (⟨.ok n, .text unit⟩ : SampleFrame R).count = .ok n := fun _ => rfl
  cases constant with
  | exact value unit => exact .ofExcept fun _ h => Quantity.ofText_fits (.inl rfl) h
  | plusMinus _ _ unit => exact Sampler.plusMinus_fits (hcount unit) _ _
  | interval _ _ unit => exact Sampler.lognormal_fits (hcount unit) _ _ _
  | oneOf _ _ unit => exact Sampler.weighted_fits (hcount unit) _ _

/-- What is remembered of constants fits. -/
theorem Constant.remember_fits (confidence : Written R) (name : String)
    {drawn : Bindings (Quantity R)} (hdrawn : drawn.All (·.Fits n)) :
    Draw.Yields (fun r => (∀ q, r.1 = some q → q.Fits n) ∧ r.2.All (·.Fits n))
      (Constant.remember confidence (.ok n) name drawn : Draw R S _) := by
  rw [Constant.remember]
  split
  · exact .pure ⟨fun _ hq => (nomatch hq), hdrawn⟩
  split
  · rename_i q hq
    exact .pure ⟨fun p hp => Option.some.inj hp ▸ hdrawn _ q hq, hdrawn⟩
  · refine (Constant.draw_fits _ confidence).bind fun q hq => ?_
    exact .pure ⟨fun p hp => Option.some.inj hp ▸ hq, hdrawn.set _ hq⟩

end Ballpark
