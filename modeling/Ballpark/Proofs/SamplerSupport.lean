import Ballpark.Builtin.Distribution
import Ballpark.Proofs.Interval
import Ballpark.Proofs.SamplerSize

/-!
# Samplers stay in their support

A sampler never gives a particle that its distribution does not have, whatever the random source is: the
uniform numbers may be anywhere from zero up to one, zero included, and the normal numbers anywhere
(`Distribution.samplers_stay_in_support`). Numbers that are given by a formula lie where the formula maps
the unit interval or the line to. For the others what one step gives is carried through the loop:

* a candidate of the gamma sampler is accepted only if its cube is above zero, so the places that have
  been filled hold positive numbers after any number of passes (`Sampler.gammaPasses_positive`);
* a particle that is counted has made a step before it stops, so its count is at least one when no
  particle is active any more (`Sampler.countingPasses_counted`);
* the successes among some trials are no more than the trials (`Sampler.trialCounts_within`), and rounded
  normal numbers are whole numbers that are kept in the same range.
-/

namespace Ballpark

open Evaluation

/-! ## Samples from a set -/

/-- A sample of as many particles as are asked for, all of them in a set. -/
structure Sample.DrawnFrom (n : SampleCount) (A : Set ℝ) (s : Sample ℝ) : Prop where
  size : s.size = n.size
  mem : ∀ x ∈ s.toList, x ∈ A

/-- An uncertain quantity of as many particles as are asked for, all of them in a set. -/
structure Quantity.DrawnFrom (n : SampleCount) (A : Set ℝ) (q : Quantity ℝ) : Prop where
  isSample : q.isScalar = false
  size : q.size = n.size
  mem : ∀ i, q.value.particle i ∈ A

namespace Sample

variable {n : SampleCount} {A B C : Set ℝ} {s t : Sample ℝ}

theorem DrawnFrom.map (h : s.DrawnFrom n A) {f : ℝ → ℝ} (hf : ∀ x ∈ A, f x ∈ B) :
    (s.map f).DrawnFrom n B := by
  refine ⟨(size_map f s).trans h.size, fun y hy => ?_⟩
  obtain ⟨x, hx, rfl⟩ : ∃ x ∈ s.toList, f x = y := List.mem_map.mp hy
  exact hf x (h.mem x hx)

theorem DrawnFrom.zipWith (hs : s.DrawnFrom n A) (ht : t.DrawnFrom n B) {f : ℝ → ℝ → ℝ}
    (hf : ∀ x ∈ A, ∀ y ∈ B, f x y ∈ C) : (s.zipWith f t).DrawnFrom n C := by
  have hsize : (s.zipWith f t).size = n.size := by
    rw [size_zipWith, hs.size, ht.size, max_self]
  refine ⟨hsize, fun z hz => ?_⟩
  obtain ⟨i, hi⟩ := List.mem_iff_getElem?.mp hz
  have hlt : i < Max.max s.size t.size := by
    rw [← size_zipWith f]
    exact (List.getElem?_eq_some_iff.mp hi).1
  rw [← particle_eq_of_getElem? hi, particle_zipWith f s t hlt]
  exact hf _ (hs.mem _ (s.particle_mem i)) _ (ht.mem _ (t.particle_mem i))

end Sample

/-! ## What the draws give -/

namespace Draw

variable {R S : Type} {α β : Type}

theorem Yields.mono {P Q : α → Prop} {d : Draw R S α} (hd : d.Yields P) (h : ∀ a, P a → Q a) :
    d.Yields Q :=
  fun s a t hrun => h a (hd s a t hrun)

theorem Yields.and {P Q : α → Prop} {d : Draw R S α} (hp : d.Yields P) (hq : d.Yields Q) :
    d.Yields fun a => P a ∧ Q a :=
  fun s a t hrun => ⟨hp s a t hrun, hq s a t hrun⟩

/-- What is required can be relied on afterwards. -/
theorem Yields.require {Q : β → Prop} {c : Bool} {p : ParameterFault R} {k : PUnit → Draw R S β}
    (h : c = true → (k ⟨⟩).Yields Q) : (Draw.require c p >>= k).Yields Q := by
  refine Yields.bind (P := fun _ => c = true) (.ofExcept fun a ha => ?_) fun _ hc => h hc
  by_contra hc
  rw [if_neg hc] at ha
  cases ha

/-- A number that is required to be positive is. -/
theorem Yields.requirePositive {S : Type} {Q : β → Prop} {x : ℝ} {p : ParameterFault ℝ}
    {k : PUnit → Draw ℝ S β} (h : 0 < x → (k ⟨⟩).Yields Q) :
    (Draw.require (Scalar.isPositive x) p >>= k).Yields Q :=
  .require fun hx => h (by simpa using hx)

theorem mem_repeated {P : R → Prop} {step : S → R × S} (h : ∀ s, P (step s).1) (n : Nat) (s : S) :
    ∀ x ∈ (repeated step n s).1, P x := by
  induction n generalizing s with
  | zero => exact fun x hx => absurd hx List.not_mem_nil
  | succ n ih => exact List.forall_mem_cons.mpr ⟨h s, ih (step s).2⟩

theorem mem_sampleOf {P : R → Prop} {step : S → R × S} (h : ∀ s, P (step s).1) (n : SampleCount) (s : S) :
    ∀ x ∈ (sampleOf step n s).1.toList, P x :=
  List.forall_mem_cons.mpr ⟨h s, mem_repeated h _ _⟩

end Draw

/-- A source whose uniform numbers lie in the unit interval, which contains zero but not one. Of the
normal numbers nothing is asked. -/
def DrawsUniform (S : Type) [RandomSource S ℝ] : Prop :=
  ∀ s : S, (RandomSource.uniform s).1 ∈ Set.Ico (0 : ℝ) 1

/-- A unit that carries no number. -/
def UnitChoice.IsScaleFree : UnitChoice ℝ → Prop
  | .unit _ => True
  | .text t => ∀ u scale, CompoundUnit.ofText t = .ok (u, scale) → scale = (1 : ℝ)

theorem UnitChoice.isScaleFree_none : (UnitChoice.none : UnitChoice ℝ).IsScaleFree :=
  True.intro

namespace Sampler

open Draw.Yields UnitChoice

variable {S : Type} {n : SampleCount} {A B : Set ℝ}

/-- A sampler of as many numbers of a set. -/
abbrev Samples (n : SampleCount) (A : Set ℝ) (d : Draw ℝ S (Sample ℝ)) : Prop :=
  d.Yields (Sample.DrawnFrom n A)

/-- A sampler of a quantity whose particles are in a set. -/
abbrev StaysIn (n : SampleCount) (A : Set ℝ) (d : Draw ℝ S (Quantity ℝ)) : Prop :=
  d.Yields (Quantity.DrawnFrom n A)

theorem finish_staysIn {frame : SampleFrame ℝ} (hunit : frame.unit.IsScaleFree) {s : Sample ℝ}
    (hs : s.DrawnFrom n A) : StaysIn n A (frame.finish s : Draw ℝ S (Quantity ℝ)) := by
  refine ofExcept fun q hq => ?_
  rcases hchoice : frame.unit with u | t
  · rw [hchoice, UnitChoice.apply] at hq
    cases hq
    exact ⟨rfl, hs.size, fun i => hs.mem _ (s.particle_mem i)⟩
  · rw [hchoice, UnitChoice.apply, Quantity.ofText] at hq
    rcases htext : CompoundUnit.ofText (R := ℝ) t with e | ⟨u, scale⟩
    · rw [htext] at hq
      cases hq
    · rw [htext] at hq
      cases hq
      rw [hchoice] at hunit
      refine ⟨rfl, (Sample.size_map _ s).trans hs.size, fun i => ?_⟩
      have hone : scale = 1 := hunit u scale htext
      rw [Value.particle_map, hone, mul_one]
      exact hs.mem _ (s.particle_mem i)

theorem toSample_samples {xs : List ℝ} (hlength : xs.length = n.size) (hxs : ∀ x ∈ xs, x ∈ A) :
    Samples n A (toSample xs : Draw ℝ S (Sample ℝ)) := by
  rw [toSample]
  rcases xs with _ | ⟨x, rest⟩
  · exact throw _
  · exact pure ⟨hlength, hxs⟩

variable [RandomSource S ℝ]

theorem normalSample_samples (n : SampleCount) :
    Samples n Set.univ (Draw.normalSample n : Draw ℝ S (Sample ℝ)) :=
  lift fun s => ⟨Draw.size_sampleOf _ n s, fun _ _ => True.intro⟩

section

variable (hsource : DrawsUniform S)
include hsource

theorem uniformSample_samples (n : SampleCount) :
    Samples n (Set.Ico 0 1) (Draw.uniformSample n : Draw ℝ S (Sample ℝ)) :=
  lift fun s => ⟨Draw.size_sampleOf _ n s, Draw.mem_sampleOf hsource n s⟩

end

/-- The value of a weighted set that a uniform number picks. -/
noncomputable def pick (values weights : List ℝ) (u : ℝ) : ℝ :=
  values.getD (pickPlace (cumulativeShares weights) u) (values.headD 0)

/-- Whatever place a number picks, a listed value stands there. -/
theorem pick_mem {values : List ℝ} (h : values ≠ []) (weights : List ℝ) (u : ℝ) :
    pick values weights u ∈ values := by
  rcases values with _ | ⟨first, rest⟩
  · exact absurd rfl h
  · rw [pick, List.getD_eq_getElem?_getD]
    rcases hplace : (first :: rest)[pickPlace (cumulativeShares weights) u]? with _ | y
    · exact List.mem_cons_self
    · exact List.mem_of_getElem? hplace

/-! ## Intervals -/

section

variable {frame : SampleFrame ℝ} (hcount : frame.count = .ok n) (hunit : frame.unit.IsScaleFree)
include hcount hunit

theorem lognormal_staysIn (a b : ℝ) (confidence : Written ℝ) :
    StaysIn n (Set.Ioi 0) (lognormal a b confidence frame : Draw ℝ S (Quantity ℝ)) := by
  refine after fun _ => after fun _ => after fun _ => resolve hcount ?_
  refine after fun center => after fun spread => (normalSample_samples n).bind fun z hz => ?_
  exact finish_staysIn hunit (hz.map fun x _ => Real.exp_pos _)

theorem normal_staysIn (a b : ℝ) (confidence : Written ℝ) :
    StaysIn n Set.univ (normal a b confidence frame : Draw ℝ S (Quantity ℝ)) := by
  refine after fun _ => after fun _ => resolve hcount ?_
  refine after fun spread => (normalSample_samples n).bind fun z hz => ?_
  exact finish_staysIn hunit (hz.map fun _ _ => True.intro)

theorem plusMinus_staysIn (mean deviation : ℝ) :
    StaysIn n Set.univ (plusMinus mean deviation frame : Draw ℝ S (Quantity ℝ)) := by
  refine after fun _ => after fun _ => resolve hcount ?_
  refine (normalSample_samples n).bind fun z hz => ?_
  exact finish_staysIn hunit (hz.map fun _ _ => True.intro)

/-- An interval above zero is lognormal. -/
theorem interval_staysIn (a b : ℝ) (confidence : Written ℝ) :
    StaysIn n {x | 0 < a → 0 < b → 0 < x} (interval a b confidence frame : Draw ℝ S (Quantity ℝ)) := by
  refine ite (fun _ => ?_) fun hsigns => ?_
  · refine (lognormal_staysIn hcount hunit a b confidence).mono fun q hq => ?_
    exact ⟨hq.isSample, hq.size, fun i _ _ => hq.mem i⟩
  · refine (normal_staysIn hcount hunit a b confidence).mono fun q hq => ?_
    refine ⟨hq.isSample, hq.size, fun i ha hb => absurd ?_ hsigns⟩
    simp [ha, hb]

section

variable (hsource : DrawsUniform S)
include hsource

theorem uniform_staysIn (a b : ℝ) :
    StaysIn n (Set.Ico a b) (uniform a b frame : Draw ℝ S (Quantity ℝ)) := by
  refine after fun _ => require fun horder => resolve hcount ?_
  have hab : 0 < b - a := by simpa using horder
  have hbetween : Samples n (Set.Ico a b) (uniformBetween a b n : Draw ℝ S (Sample ℝ)) := by
    refine ite (fun _ => ?_) fun _ => throw _
    refine (uniformSample_samples hsource n).bind fun u hu => pure (hu.map fun x hx => ?_)
    have hlow := mul_nonneg hab.le hx.1
    have hhigh := mul_lt_of_lt_one_right hab hx.2
    exact ⟨by linarith, by linarith⟩
  exact hbetween.bind fun s hs => finish_staysIn hunit hs

theorem exponential_staysIn (rate : ℝ) :
    StaysIn n (Set.Ici 0) (exponential rate frame : Draw ℝ S (Quantity ℝ)) := by
  refine after fun _ => requirePositive fun hrate => resolve hcount ?_
  refine (uniformSample_samples hsource n).bind fun u hu => finish_staysIn hunit (hu.map fun x hx => ?_)
  have hlog : Real.log (1 + -x) ≤ 0 :=
    Real.log_nonpos (by linarith [hx.2]) (by linarith [hx.1])
  exact div_nonneg (neg_nonneg.mpr hlog) hrate.le

theorem exponentialMean_staysIn (mean : ℝ) :
    StaysIn n (Set.Ici 0) (exponentialMean mean frame : Draw ℝ S (Quantity ℝ)) :=
  after fun _ => exponential_staysIn hcount hunit hsource _

theorem weighted_staysIn (values weights : List ℝ) :
    StaysIn n {x | x ∈ values} (weighted values weights frame : Draw ℝ S (Quantity ℝ)) := by
  rcases values with _ | ⟨first, rest⟩
  · exact throw _
  · refine after fun _ => after fun _ => after fun _ => after fun _ => resolve hcount ?_
    refine (uniformSample_samples hsource n).bind fun u hu => finish_staysIn hunit (hu.map fun x _ => ?_)
    exact pick_mem (List.cons_ne_nil first rest) weights x

end

end

theorem percent_staysIn (percentage : ℝ) (confidence : Written ℝ) :
    StaysIn n (Set.Ioi 0) (percent percentage confidence (.ok n) : Draw ℝ S (Quantity ℝ)) :=
  after fun _ => lognormal_staysIn rfl isScaleFree_none _ _ confidence

theorem decibels_staysIn (size : ℝ) (confidence : Written ℝ) :
    StaysIn n (Set.Ioi 0) (decibels size confidence (.ok n) : Draw ℝ S (Quantity ℝ)) :=
  after fun _ => after fun _ => after fun _ => lognormal_staysIn rfl isScaleFree_none _ _ confidence

/-! ## The gamma family -/

theorem GammaShape.of_d_pos {shape : ℝ} (h : 1 ≤ shape) : 0 < (GammaShape.of shape).d := by
  simp only [GammaShape.of, Scalar.ofNat_real]
  norm_num
  linarith

/-- A candidate is accepted only if its cube is above zero. -/
theorem GammaShape.candidate_pos {g : GammaShape ℝ} (hd : 0 < g.d) {x u y : ℝ}
    (h : g.candidate x u = some y) : 0 < y := by
  unfold GammaShape.candidate at h
  obtain ⟨haccepted, hy⟩ := Option.ite_none_right_eq_some.mp h
  rw [Bool.and_eq_true, Scalar.isPositive_real, decide_eq_true_eq] at haccepted
  cases hy
  exact mul_pos hd haccepted.1

/-- One pass writes positive numbers only. -/
theorem gammaPass_positive {g : GammaShape ℝ} (hd : 0 < g.d) {f : Filling ℝ}
    (hf : ∀ y ∈ f.numbers, 0 < y) :
    Draw.Yields (fun next => ∀ y ∈ next.numbers, 0 < y) (gammaPass g f : Draw ℝ S (Filling ℝ)) := by
  refine after fun x => after fun u => pure fun y hy => ?_
  rcases Filling.mem_numbers_fill hy with hkept | hdrawn
  · exact hf y hkept
  · obtain ⟨i, hi⟩ := List.mem_iff_getElem?.mp hdrawn
    obtain ⟨x, u, -, -, haccepted⟩ := List.getElem?_zipWith_eq_some.mp hi
    exact GammaShape.candidate_pos hd haccepted

/-- The numbers that have been written are positive after any number of passes. -/
theorem gammaPasses_positive {g : GammaShape ℝ} (hd : 0 < g.d) (limit : Nat) {f : Filling ℝ}
    (hf : ∀ y ∈ f.numbers, 0 < y) :
    Draw.Yields (fun full => ∀ y ∈ full.numbers, 0 < y) (gammaPasses g limit f : Draw ℝ S (Filling ℝ)) := by
  induction limit generalizing f with
  | zero => exact throw _
  | succ limit ih =>
    exact ite (fun _ => pure hf) fun _ => (gammaPass_positive hd hf).bind fun next hnext => ih hnext

theorem gammaLarge_samples (limit : Nat) {shape : ℝ} (hshape : 1 ≤ shape) (n : SampleCount) :
    Samples n (Set.Ioi 0) (gammaLarge limit shape n : Draw ℝ S (Sample ℝ)) := by
  have hempty : ∀ y ∈ (Filling.start n.size : Filling ℝ).numbers, 0 < y := by
    simp [Filling.mem_numbers, Filling.start]
  have hpasses := (gammaPasses_full (GammaShape.of shape) limit (Filling.sound_start n.size)).and
    (gammaPasses_positive (S := S) (GammaShape.of_d_pos hshape) limit hempty)
  refine hpasses.bind fun full hfull => ?_
  obtain ⟨⟨hsound, hdone⟩, hpositive⟩ := hfull
  exact toSample_samples (hsound.length_numbers hdone) hpositive

/-- What a gamma sampler gives: numbers that are not negative, and none that is zero for a shape of at
least one. -/
def gammaSupport (shape : ℝ) : Set ℝ :=
  {x | 0 ≤ x ∧ (1 ≤ shape → 0 < x)}

/-- What a beta sampler gives: for shapes of at least one, numbers strictly between zero and one. -/
def betaSupport (alpha beta : ℝ) : Set ℝ :=
  {x | 1 ≤ alpha → 1 ≤ beta → x ∈ Set.Ioo 0 1}

section

variable (hsource : DrawsUniform S)
include hsource

theorem standardGamma_samples {shape : ℝ} (hshape : 0 < shape) (n : SampleCount) :
    Samples n (gammaSupport shape) (standardGamma shape n : Draw ℝ S (Sample ℝ)) := by
  refine ite (fun hsmall => ?_) fun hlarge => ?_
  · -- a power of the uniform number zero is zero, so here the product may be
    have hbelow : shape < 1 := by simpa using hsmall
    have hnext : 1 ≤ shape + Scalar.ofNat 1 := by
      rw [Scalar.ofNat_real, Nat.cast_one]
      linarith
    refine (gammaLarge_samples _ hnext n).bind fun boosted hboosted => ?_
    refine (uniformSample_samples hsource n).bind fun u hu => pure (hboosted.zipWith hu ?_)
    intro y hy x hx
    exact ⟨mul_nonneg (le_of_lt hy) (Real.rpow_nonneg hx.1 _), fun h => absurd hbelow (not_lt.mpr h)⟩
  · have hone : 1 ≤ shape := by simpa using hlarge
    refine (gammaLarge_samples _ hone n).mono fun s hs => ⟨hs.size, fun x hx => ?_⟩
    exact ⟨le_of_lt (hs.mem x hx), fun _ => hs.mem x hx⟩

section

variable {frame : SampleFrame ℝ} (hcount : frame.count = .ok n) (hunit : frame.unit.IsScaleFree)
include hcount hunit

theorem gamma_staysIn (shape scale : ℝ) :
    StaysIn n (gammaSupport shape) (gamma shape scale frame : Draw ℝ S (Quantity ℝ)) := by
  refine after fun _ => requirePositive fun hshape => requirePositive fun hscale => resolve hcount ?_
  refine (standardGamma_samples hsource hshape n).bind fun y hy => finish_staysIn hunit (hy.map ?_)
  exact fun x hx => ⟨mul_nonneg hx.1 hscale.le, fun h => mul_pos (hx.2 h) hscale⟩

theorem beta_staysIn (a b : ℝ) :
    StaysIn n (betaSupport a b) (beta a b frame : Draw ℝ S (Quantity ℝ)) := by
  refine after fun _ => requirePositive fun ha => requirePositive fun hb => resolve hcount ?_
  refine (standardGamma_samples hsource ha n).bind fun x hx => ?_
  refine (standardGamma_samples hsource hb n).bind fun y hy => finish_staysIn hunit (hx.zipWith hy ?_)
  intro x hx y hy hone hone'
  have hxpos := hx.2 hone
  have hypos := hy.2 hone'
  exact ⟨div_pos hxpos (add_pos hxpos hypos), (div_lt_one (add_pos hxpos hypos)).mpr (by linarith)⟩

end

/-- Both shapes are at least one by the rule of succession. -/
theorem outOf_staysIn (successes total : ℝ) :
    StaysIn n (Set.Ioo 0 1) (outOf successes total (.ok n) : Draw ℝ S (Quantity ℝ)) := by
  refine require fun hnonneg => require fun hle => ?_
  rw [Scalar.isNonnegative_real, decide_eq_true_eq] at hnonneg
  rw [Scalar.le_real, decide_eq_true_eq] at hle
  refine (beta_staysIn hsource rfl isScaleFree_none _ _).mono fun q hq => ?_
  refine ⟨hq.isSample, hq.size, fun i => hq.mem i ?_ ?_⟩
  · rw [Scalar.ofNat_real, Nat.cast_one]
    linarith
  · rw [Scalar.ofNat_real, Nat.cast_one]
    linarith

theorem against_staysIn (pro contra : ℝ) :
    StaysIn n (betaSupport pro contra) (against pro contra (.ok n) : Draw ℝ S (Quantity ℝ)) :=
  after fun _ => after fun _ => beta_staysIn hsource rfl isScaleFree_none pro contra

end

/-! ## Counts -/

/-- A particle that has stopped has made a step. -/
def Counting.HasMoved (p : Counting ℝ) : Prop :=
  p.active = true ∨ 1 ≤ p.count

/-- An active particle is handed a number in the pass, and the others have moved before. -/
theorem stepAll_counted (limit : ℝ) {particles : List (Counting ℝ)} (h : ∀ p ∈ particles, p.HasMoved)
    {u : List ℝ} (hu : u.length = particles.countP (·.active)) :
    ∀ p ∈ stepAll limit particles (handOut particles u), 1 ≤ p.count := by
  intro q hq
  obtain ⟨i, hi⟩ := List.mem_iff_getElem?.mp hq
  rw [getElem?_stepAll (length_handOut particles u)] at hi
  obtain ⟨p, hp, rfl⟩ := Option.map_eq_some_iff.mp hi
  have hhanded := (handed_handOut hu).isSome_handed? hp
  rcases hx : handed? (handOut particles u) i with _ | x
  · rw [hx] at hhanded
    exact (h p (List.mem_of_getElem? hp)).resolve_left fun hactive => by simp [hactive] at hhanded
  · exact Nat.le_add_left 1 p.count

/-- Every particle has been counted at least once when the passes end. -/
theorem countingPasses_counted (limit : ℝ) (passes : Nat) {particles : List (Counting ℝ)}
    (h : ∀ p ∈ particles, p.HasMoved) :
    Draw.Yields (fun counted => ∀ p ∈ counted, 1 ≤ p.count)
      (countingPasses limit passes particles : Draw ℝ S (List (Counting ℝ))) := by
  induction passes generalizing particles with
  | zero => exact throw _
  | succ passes ih =>
    refine ite (fun _ => ?_) fun hstopped => pure fun p hp => ?_
    · have hpass : Draw.Yields (fun next => ∀ p ∈ next, p.HasMoved)
          (countingPass limit particles : Draw ℝ S (List (Counting ℝ))) :=
        (uniforms_length _).bind fun u hu => pure fun p hp => .inr (stepAll_counted limit h hu p hp)
      exact hpass.bind fun next hnext => ih hnext
    · rw [List.any_eq_true] at hstopped
      exact (h p hp).resolve_left fun hactive => hstopped ⟨p, hp, hactive⟩

theorem countedOut_samples (passes : Nat) (rate : ℝ) (n : SampleCount) :
    Samples n (Set.range ((↑) : ℕ → ℝ)) (countedOut passes rate n : Draw ℝ S (Sample ℝ)) := by
  have hstart : ∀ p ∈ List.replicate n.size (Counting.start : Counting ℝ), p.HasMoved :=
    fun p hp => .inl (List.eq_of_mem_replicate hp ▸ rfl)
  have hpasses := (countingPasses_length (S := S) (Scalar.apply .exp (-rate)) passes
    (List.replicate n.size Counting.start)).and (countingPasses_counted _ passes hstart)
  refine hpasses.bind fun counted ⟨hlength, hcounted⟩ => toSample_samples ?_ fun x hx => ?_
  · rw [List.length_map, hlength, List.length_replicate]
  · obtain ⟨p, hp, rfl⟩ := List.mem_map.mp hx
    refine ⟨p.count - 1, ?_⟩
    rw [Scalar.ofInt_real, Nat.cast_sub (hcounted p hp)]
    push_cast
    rfl

/-- The successes among some trials are no more than the trials. -/
theorem trialCounts_within (trials : Nat) (p : ℝ) (m : Nat) :
    Draw.Yields (fun counts => ∀ x ∈ counts, ∃ k : ℕ, x = (k : ℝ) ∧ k ≤ trials)
      (trialCounts trials p m : Draw ℝ S (List ℝ)) := by
  induction m with
  | zero => exact pure fun x hx => absurd hx List.not_mem_nil
  | succ m ih =>
    have htrials : Draw.Yields (·.length = trials) (Draw.uniforms trials : Draw ℝ S (List ℝ)) :=
      lift fun s => Draw.length_repeated _ trials s
    refine htrials.bind fun u hu => ih.bind fun counts hcounts => ?_
    refine pure (List.forall_mem_cons.mpr ⟨⟨_, Scalar.ofNat_real _, ?_⟩, hcounts⟩)
    exact hu ▸ List.countP_le_length

theorem roundEven_eq_intCast (x : ℝ) : ∃ k : ℤ, RealNumber.roundEven x = k := by
  unfold RealNumber.roundEven
  split_ifs
  · exact ⟨_, rfl⟩
  · exact ⟨⌊x⌋ + 1, by push_cast; rfl⟩
  · exact ⟨_, rfl⟩
  · exact ⟨⌊x⌋ + 1, by push_cast; rfl⟩

theorem max_roundEven_eq_natCast (x : ℝ) : ∃ k : ℕ, max (RealNumber.roundEven x) 0 = k := by
  obtain ⟨k, hk⟩ := roundEven_eq_intCast x
  refine ⟨k.toNat, ?_⟩
  have htoNat : ((k.toNat : ℤ) : ℝ) = max (k : ℝ) 0 := by
    rw [Int.toNat_eq_max, Int.cast_max, Int.cast_zero]
  rw [hk, ← htoNat, Int.cast_natCast]

theorem clip_eq (x low high : ℝ) : clip x low high = min (max x low) high := by
  have hlow : (if x < low then low else x) = max x low := (max_def_lt x low).symm
  simp only [clip, Scalar.lt_real, decide_eq_true_eq, hlow]
  rw [min_comm, min_def_lt]

theorem wholePart_natCast (m : ℕ) : Sample.wholePart (m : ℝ) = m := by
  rw [Sample.wholePart, Scalar.floor_toRat m.cast_nonneg, Int.floor_natCast, Int.toNat_natCast]

/-- What a Poisson sampler gives: the natural numbers. -/
def poissonSupport : Set ℝ :=
  Set.range ((↑) : ℕ → ℝ)

/-- What a binomial sampler gives: the natural numbers up to the number of trials. -/
def binomialSupport (trials : ℝ) : Set ℝ :=
  {x | ∃ k : ℕ, x = k ∧ (k : ℝ) ≤ trials}

section

variable {frame : SampleFrame ℝ} (hcount : frame.count = .ok n) (hunit : frame.unit.IsScaleFree)
include hcount hunit

theorem poisson_staysIn (rate : ℝ) :
    StaysIn n poissonSupport (poisson rate frame : Draw ℝ S (Quantity ℝ)) := by
  refine after fun _ => after fun _ => resolve hcount (ite (fun _ => ?_) fun _ => ?_)
  · exact (countedOut_samples _ rate n).bind fun s hs => finish_staysIn hunit hs
  · refine (normalSample_samples n).bind fun z hz => finish_staysIn hunit (hz.map fun x _ => ?_)
    obtain ⟨k, hk⟩ := max_roundEven_eq_natCast (rate + √rate * x)
    refine ⟨k, ?_⟩
    rw [Scalar.maximum_real, Scalar.ofNat_real, Nat.cast_zero, max_comm]
    exact hk.symm

theorem binomial_staysIn (trials p : ℝ) :
    StaysIn n (binomialSupport trials) (binomial trials p frame : Draw ℝ S (Quantity ℝ)) := by
  refine after fun _ => require fun htrials => after fun _ => resolve hcount ?_
  obtain ⟨m, rfl⟩ : ∃ m : ℕ, trials = m := by
    rw [Bool.and_eq_true, Scalar.isPositive_real, decide_eq_true_eq, Scalar.eq_real, decide_eq_true_eq]
      at htrials
    have hwhole : ((⌊trials⌋ : ℤ) : ℝ) = trials := htrials.2
    have hnonneg : 0 ≤ ⌊trials⌋ := Int.floor_nonneg.mpr htrials.1.le
    exact ⟨⌊trials⌋.toNat, by rw [← Int.cast_natCast, Int.toNat_of_nonneg hnonneg, hwhole]⟩
  refine ite (fun _ => ?_) fun _ => ?_
  · have hcounts := (trialCounts_length (S := S) (Sample.wholePart (m : ℝ)) p n.size).and
      (trialCounts_within (Sample.wholePart (m : ℝ)) p n.size)
    refine hcounts.bind fun counts ⟨hlength, hwithin⟩ => ?_
    refine (toSample_samples hlength fun x hx => ?_).bind fun s hs => finish_staysIn hunit hs
    obtain ⟨k, rfl, hk⟩ := hwithin x hx
    rw [wholePart_natCast] at hk
    exact ⟨k, rfl, Nat.cast_le.mpr hk⟩
  · refine (normalSample_samples n).bind fun z hz => finish_staysIn hunit (hz.map fun x _ => ?_)
    obtain ⟨k, hk⟩ := max_roundEven_eq_natCast (m * p + √(m * p * (Scalar.ofNat 1 - p)) * x)
    refine ⟨min k m, ?_, Nat.cast_le.mpr (min_le_right k m)⟩
    have hzero : (Scalar.ofNat 0 : ℝ) = 0 := by rw [Scalar.ofNat_real, Nat.cast_zero]
    rw [clip_eq, hzero, Nat.cast_min]
    exact congrArg (min · _) hk

end

end Sampler

/-! ## Distributions and weighted sets -/

namespace Distribution

/-- The numbers that a distribution has for some parameters. A normal distribution has them all. -/
def support : Distribution → List ℝ → Set ℝ
  | interval, [a, b] => {x | 0 < a → 0 < b → 0 < x}
  | lognormal, _ | percent, _ | decibels, _ => Set.Ioi 0
  | uniform, [a, b] => Set.Ico a b
  | outOf, _ => Set.Ioo 0 1
  | against, [a, b] | beta, [a, b] => Sampler.betaSupport a b
  | gamma, shape :: _ => Sampler.gammaSupport shape
  | poisson, _ => Sampler.poissonSupport
  | exponential, _ | exponentialMean, _ => Set.Ici 0
  | binomial, trials :: _ => Sampler.binomialSupport trials
  | _, _ => Set.univ

variable {S : Type} [RandomSource S ℝ]

/-- **Samplers stay in their support.** What a distribution gives for parameters that it accepts are as
many particles as the frame asks for, and all of them are numbers that the distribution has; those of a
weighted set are among its values. -/
theorem samplers_stay_in_support (hsource : DrawsUniform S) {frame : SampleFrame ℝ} {n : SampleCount}
    (hcount : frame.count = .ok n) (hunit : frame.unit.IsScaleFree) :
    (∀ (d : Distribution) (confidence : Written ℝ) (arguments : List ℝ) (sampler : Draw ℝ S (Quantity ℝ)),
      d.sampler? confidence frame arguments = some sampler →
        sampler.Yields (Quantity.DrawnFrom n (d.support arguments))) ∧
    ∀ values weights : List ℝ, (Sampler.weighted values weights frame : Draw ℝ S (Quantity ℝ)).Yields
      (Quantity.DrawnFrom n {x | x ∈ values}) := by
  refine ⟨fun d confidence arguments sampler hsampler => ?_,
    fun values weights => Sampler.weighted_staysIn hcount hunit hsource values weights⟩
  rw [Distribution.sampler?.eq_def] at hsampler
  -- the pairs of a distribution and its arguments that fit, in the order of the table
  split at hsampler
  all_goals cases hsampler
  · exact Sampler.interval_staysIn hcount hunit _ _ _
  · exact Sampler.lognormal_staysIn hcount hunit _ _ _
  · exact Sampler.normal_staysIn hcount hunit _ _ _
  · exact Sampler.uniform_staysIn hcount hunit hsource _ _
  · exact Sampler.plusMinus_staysIn hcount hunit _ _
  · exact hcount ▸ Sampler.outOf_staysIn hsource _ _
  · exact hcount ▸ Sampler.against_staysIn hsource _ _
  · exact Sampler.beta_staysIn hsource hcount hunit _ _
  · exact Sampler.gamma_staysIn hsource hcount hunit _ _
  · exact Sampler.gamma_staysIn hsource hcount hunit _ _
  · exact Sampler.poisson_staysIn hcount hunit _
  · exact Sampler.exponential_staysIn hcount hunit hsource _
  · exact Sampler.exponentialMean_staysIn hcount hunit hsource _
  · exact Sampler.binomial_staysIn hcount hunit _ _
  · exact hcount ▸ Sampler.percent_staysIn _ _
  · exact hcount ▸ Sampler.decibels_staysIn _ _
  · exact hcount ▸ Sampler.decibels_staysIn _ _

end Distribution

/-- A source that draws one number of the unit interval, and one normal number, again and again. -/
structure SteadySource where
  drawn : Set.Ico (0 : ℝ) 1
  normal : ℝ

noncomputable instance : RandomSource SteadySource ℝ where
  uniform s := (s.drawn, s)
  normal s := (s.normal, s)
  seeded _ := ⟨⟨0, by norm_num⟩, 0⟩

theorem SteadySource.drawsUniform : DrawsUniform SteadySource :=
  fun s => s.drawn.property

/-- Every particle that such a source gives is the one uniform number. -/
theorem SteadySource.particle_sampleOf (n : SampleCount) (s : SteadySource) (i : Nat) :
    (Draw.sampleOf RandomSource.uniform n s : Sample ℝ × SteadySource).1.particle i = s.drawn := by
  have hrepeated : ∀ m, (Draw.repeated RandomSource.uniform m s : List ℝ × SteadySource).1 =
      List.replicate m (s.drawn : ℝ) := by
    intro m
    induction m with
    | zero => rfl
    | succ m ih => exact congrArg _ ih
  have hmem : ∀ x ∈ (Draw.sampleOf RandomSource.uniform n s : Sample ℝ × SteadySource).1.toList,
      x = s.drawn := by
    refine List.forall_mem_cons.mpr ⟨rfl, fun x hx => ?_⟩
    have hrest : x ∈ (Draw.repeated RandomSource.uniform (n.size - 1) s : List ℝ × SteadySource).1 := hx
    rw [hrepeated] at hrest
    exact List.eq_of_mem_replicate hrest
  exact hmem _ (Sample.particle_mem _ i)

/-- Where every uniform number is zero, uniform numbers from two up to five are still not below two. -/
theorem Distribution.support_of_zero_draws :
    let source : SteadySource := ⟨⟨0, by norm_num⟩, 0⟩
    let frame : SampleFrame ℝ := ⟨.ok ⟨3, by decide⟩, .unit .one⟩
    ∃ q t, (Sampler.uniform 2 5 frame).run source = (.ok q, t) ∧
      q.DrawnFrom ⟨3, by decide⟩ (Set.Ico 2 5) := by
  intro source frame
  have hcount : frame.count = .ok ⟨3, by decide⟩ := rfl
  have hrun := Sampler.uniform_run (show (2 : ℝ) < 5 by norm_num) ⟨3, by decide⟩ .one source
  have hstays := (Distribution.samplers_stay_in_support SteadySource.drawsUniform hcount True.intro).1
    .uniform (.decimal 0.9) [2, 5] _ rfl
  exact ⟨_, _, hrun, hstays source _ _ hrun⟩

end Ballpark
