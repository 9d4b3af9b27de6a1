import Ballpark.Proofs.Interval
import Ballpark.Proofs.SamplerSize
import Ballpark.Builtin.Distribution

/-!
# Samplers that fail

A sampler checks its parameters, the number of particles and the confidence before it draws, so that a call
that is refused does not shift what is drawn later. The text of its unit is different: it is read when the
quantity of the sample is made, and all has been drawn by then (`Draw.ReadsUnitLast`). A call therefore fails
in one of two ways (`SamplerCall.failed_draw_iff`): without a draw, or for the text of its unit, and then the
source is left as it would be after the same call without a unit (`SamplerCall.failed_draw_shifts` is one).
A sampler by passes may also go on too long, which is no failure of the call.
-/

namespace Ballpark

variable {R S : Type} {α β : Type}

open Evaluation

/-- A sample can be given a unit unless that is a text that cannot be read. -/
theorem UnitChoice.apply_eq_error [Scalar R] {unit : UnitChoice R} {x : Sample R} {f : Fault R} :
    unit.apply x = .error f ↔ ∃ text, unit = .text text ∧ CompoundUnit.ofText text = .error f := by
  rcases unit with u | text
  · exact iff_of_false (fun h => nomatch h) fun ⟨_, h, _⟩ => nomatch h
  · have htext : Quantity.ofText (.sample x) text = .error f ↔ CompoundUnit.ofText text = .error f := by
      rw [Quantity.ofText]
      rcases CompoundUnit.ofText text with e | r <;> simp [bind, Except.bind, pure, Except.pure]
    refine htext.trans ⟨fun h => ⟨text, rfl, h⟩, ?_⟩
    rintro ⟨_, heq, h⟩
    cases heq
    exact h

namespace Draw

/-- Nothing is drawn, whether it fails or not. -/
def Free (d : Draw R S α) : Prop :=
  ∀ s, (d.run s).2 = s

/-- Nothing can go wrong but that it goes on too long. -/
def Sure (d : Draw R S α) : Prop :=
  ∀ s f t, d.run s = (.error f, t) → f = .exhausted

/-- Nothing is drawn if it fails, unless it goes on too long. -/
def Careful (d : Draw R S α) : Prop :=
  ∀ s f t, d.run s = (.error f, t) → f = .exhausted ∨ t = s

variable {d : Draw R S α} {f : α → Draw R S β}

theorem Free.careful (h : Free d) : Careful d := by
  intro s f t hrun
  have hstate := h s
  rw [hrun] at hstate
  exact .inr hstate

theorem Sure.careful (h : Sure d) : Careful d :=
  fun s f t hrun => .inl (h s f t hrun)

theorem free_ofExcept (e : Except (Fault R) α) : Free (ofExcept e : Draw R S α) :=
  fun _ => rfl

theorem free_throw (e : Fault R) : Free (throw e : Draw R S α) :=
  fun _ => rfl

theorem free_require (condition : Bool) (otherwise : ParameterFault R) :
    Free (require condition otherwise : Draw R S PUnit) :=
  free_ofExcept _

theorem free_requireFinite [Scalar R] (sampler : String) (values : List R) :
    Free (requireFinite sampler values : Draw R S PUnit) :=
  free_ofExcept _

theorem sure_lift (x : StateM S α) : Sure (ExceptT.lift x : Draw R S α) :=
  fun _ _ _ h => nomatch h

theorem sure_pure (a : α) : Sure (pure a : Draw R S α) :=
  fun _ _ _ h => nomatch h

/-- What comes next need only be sure of what the first part gives. -/
theorem Sure.bind {P : α → Prop} (hd : Sure d) (hP : d.Yields P) (hf : ∀ a, P a → Sure (f a)) :
    Sure (d >>= f) := by
  intro s e t h
  rcases run_bind_eq_error.mp h with hfirst | ⟨a, u, hfirst, hrest⟩
  · exact hd s e t hfirst
  · exact hf a (hP s a u hfirst) u e t hrest

theorem Sure.bind_any (hd : Sure d) (hf : ∀ a, Sure (f a)) : Sure (d >>= f) :=
  hd.bind (P := fun _ => True) (fun _ _ _ _ => True.intro) fun a _ => hf a

theorem Sure.ite {c : Prop} [Decidable c] {e : Draw R S α} (hd : Sure d) (he : Sure e) :
    Sure (if c then d else e) := by
  split
  · exact hd
  · exact he

/-- **Checks come before draws.** -/
theorem Free.bind (hd : Free d) (hf : ∀ a, Careful (f a)) : Careful (d >>= f) := by
  intro s e t h
  rcases run_bind_eq_error.mp h with hfirst | ⟨a, u, hfirst, hrest⟩
  · exact hd.careful s e t hfirst
  · have hstate := hd s
    rw [hfirst] at hstate
    obtain rfl : u = s := hstate
    exact hf a u e t hrest

theorem Careful.map (h : Careful d) (g : α → β) : Careful (g <$> d) :=
  fun s e t hrun => h s e t (run_map_eq_error.mp hrun)

theorem Careful.ite {c : Prop} [Decidable c] {e : Draw R S α} (hd : Careful d) (he : Careful e) :
    Careful (if c then d else e) := by
  split
  · exact hd
  · exact he

variable [Scalar R]

/-- A sampler that is careful until it has its numbers, and reads its unit only then. -/
def ReadsUnitLast (sampler : UnitChoice R → Draw R S (Quantity R)) : Prop :=
  ∃ numbers : Draw R S (Sample R), Careful numbers ∧
    ∀ unit, sampler unit = numbers >>= fun x => ofExcept (unit.apply x)

namespace ReadsUnitLast

/-- What draws nothing and does not look at the unit may come first. -/
theorem after {k : α → UnitChoice R → Draw R S (Quantity R)} (hd : Free d) (hk : ∀ a, ReadsUnitLast (k a)) :
    ReadsUnitLast fun unit => d >>= fun a => k a unit := by
  choose numbers hcareful hunit using hk
  refine ⟨d >>= numbers, hd.bind hcareful, fun unit => ?_⟩
  simp only [hunit, bind_assoc]

/-- The numbers are made of what is drawn. -/
theorem draws (hd : Careful d) (make : α → Sample R) :
    ReadsUnitLast fun unit => d >>= fun a => ofExcept (unit.apply (make a)) :=
  ⟨make <$> d, hd.map make, fun unit => (bind_map_left make d fun x => ofExcept (unit.apply x)).symm⟩

theorem ite {c : Prop} [Decidable c] {k l : UnitChoice R → Draw R S (Quantity R)} (hk : ReadsUnitLast k)
    (hl : ReadsUnitLast l) : ReadsUnitLast fun unit => if c then k unit else l unit := by
  by_cases h : c
  · simpa only [if_pos h] using hk
  · simpa only [if_neg h] using hl

theorem throw (e : Fault R) : ReadsUnitLast fun _ => (MonadExcept.throw e : Draw R S (Quantity R)) :=
  ⟨MonadExcept.throw e, (free_throw e).careful, fun _ => rfl⟩

variable {sampler : UnitChoice R → Draw R S (Quantity R)}

/-- Without a text for its unit such a sampler is careful to its end. -/
theorem careful_unit (h : ReadsUnitLast sampler) (u : CompoundUnit R) : Careful (sampler (.unit u)) := by
  obtain ⟨numbers, hcareful, hunit⟩ := h
  intro s e t hrun
  rw [hunit] at hrun
  rcases run_bind_eq_error.mp hrun with hnumbers | ⟨x, w, -, hname⟩
  · exact hcareful s e t hnumbers
  · cases hname

/-- **Such a sampler fails in one of two ways**: before it draws anything, whatever its unit is, or because of the
text of its unit, when all has been drawn. -/
theorem run_eq_error (h : ReadsUnitLast sampler) {unit : UnitChoice R} {s t : S} {f : Fault R}
    (hf : f ≠ .exhausted) :
    (sampler unit).run s = (.error f, t) ↔
      ((sampler .none).run s = (.error f, t) ∧ t = s) ∨
        ∃ text q, unit = .text text ∧ CompoundUnit.ofText text = .error f ∧
          (sampler .none).run s = (.ok q, t) := by
  obtain ⟨numbers, hcareful, hunit⟩ := h
  rw [hunit unit, hunit .none]
  constructor
  · intro hrun
    rcases run_bind_eq_error.mp hrun with hnumbers | ⟨x, w, hnumbers, happly⟩
    · exact .inl ⟨run_bind_of_error hnumbers, (hcareful s f t hnumbers).resolve_left hf⟩
    · obtain ⟨hrefused, rfl⟩ := Prod.mk.inj happly
      obtain ⟨text, rfl, htext⟩ := UnitChoice.apply_eq_error.mp hrefused
      exact .inr ⟨text, _, rfl, htext, run_bind_of_ok hnumbers⟩
  · rintro (⟨hrun, -⟩ | ⟨text, q, rfl, htext, hrun⟩)
    · rcases run_bind_eq_error.mp hrun with hnumbers | ⟨x, w, -, happly⟩
      · exact run_bind_of_error hnumbers
      · cases happly
    · obtain ⟨x, w, hnumbers, happly⟩ := run_bind_eq_ok.mp hrun
      obtain ⟨-, rfl⟩ := Prod.mk.inj happly
      rw [run_bind_of_ok hnumbers]
      exact congrArg (·, w) (UnitChoice.apply_eq_error.mpr ⟨text, rfl, htext⟩)

end ReadsUnitLast

end Draw

/-! ## All samplers -/

namespace Sampler

open Draw

variable [Scalar R]

section

variable [RandomSource S R] (count : Except (Fault R) SampleCount)

omit [Scalar R] [RandomSource S R] in
theorem sure_toSample {n : SampleCount} {xs : List R} (h : xs.length = n.size) :
    Sure (toSample xs : Draw R S (Sample R)) := by
  obtain ⟨x, xs, rfl⟩ := List.exists_cons_of_length_pos (h ▸ n.positive)
  exact sure_pure _

/-! ### Intervals -/

theorem lognormal_readsUnitLast (a b : R) (confidence : Written R) :
    ReadsUnitLast (S := S) fun unit => lognormal a b confidence ⟨count, unit⟩ := by
  refine .after (free_requireFinite _ _) fun _ => .after (free_require _ _) fun _ => ?_
  refine .after (free_require _ _) fun _ => .after (free_ofExcept count) fun n => ?_
  refine .after (free_ofExcept _) fun center => .after (free_ofExcept _) fun spread => ?_
  exact .draws (sure_lift _).careful _

theorem normal_readsUnitLast (a b : R) (confidence : Written R) :
    ReadsUnitLast (S := S) fun unit => normal a b confidence ⟨count, unit⟩ := by
  refine .after (free_requireFinite _ _) fun _ => .after (free_require _ _) fun _ => ?_
  refine .after (free_ofExcept count) fun n => .after (free_ofExcept _) fun spread => ?_
  exact .draws (sure_lift _).careful _

theorem interval_readsUnitLast (a b : R) (confidence : Written R) :
    ReadsUnitLast (S := S) fun unit => interval a b confidence ⟨count, unit⟩ :=
  .ite (lognormal_readsUnitLast count a b confidence) (normal_readsUnitLast count a b confidence)

theorem plusMinus_readsUnitLast (mean deviation : R) :
    ReadsUnitLast (S := S) fun unit => plusMinus mean deviation ⟨count, unit⟩ := by
  refine .after (free_requireFinite _ _) fun _ => .after (free_require _ _) fun _ => ?_
  exact .after (free_ofExcept count) fun n => .draws (sure_lift _).careful _

theorem careful_uniformBetween (a b : R) (n : SampleCount) :
    Careful (uniformBetween a b n : Draw R S (Sample R)) :=
  .ite ((sure_lift _).bind_any fun _ => sure_pure _).careful (free_throw _).careful

theorem uniform_readsUnitLast (a b : R) :
    ReadsUnitLast (S := S) fun unit => uniform a b ⟨count, unit⟩ := by
  refine .after (free_requireFinite _ _) fun _ => .after (free_require _ _) fun _ => ?_
  exact .after (free_ofExcept count) fun n => .draws (careful_uniformBetween a b n) id

theorem exponential_readsUnitLast (rate : R) :
    ReadsUnitLast (S := S) fun unit => exponential rate ⟨count, unit⟩ := by
  refine .after (free_requireFinite _ _) fun _ => .after (free_require _ _) fun _ => ?_
  exact .after (free_ofExcept count) fun n => .draws (sure_lift _).careful _

theorem exponentialMean_readsUnitLast (mean : R) :
    ReadsUnitLast (S := S) fun unit => exponentialMean mean ⟨count, unit⟩ :=
  .after (free_require _ _) fun _ => exponential_readsUnitLast count _

theorem weighted_readsUnitLast (values weights : List R) :
    ReadsUnitLast (S := S) fun unit => weighted values weights ⟨count, unit⟩ := by
  rcases values with _ | ⟨first, rest⟩
  · exact .throw _
  · refine .after (free_require _ _) fun _ => .after (free_requireFinite _ _) fun _ => ?_
    refine .after (free_require _ _) fun _ => .after (free_require _ _) fun _ => ?_
    exact .after (free_ofExcept count) fun n => .draws (sure_lift _).careful _

theorem careful_percent (percentage : R) (confidence : Written R) :
    Careful (percent percentage confidence count : Draw R S (Quantity R)) :=
  (free_require _ _).bind fun _ => (lognormal_readsUnitLast count _ _ confidence).careful_unit .one

theorem careful_decibels (size : R) (confidence : Written R) :
    Careful (decibels size confidence count : Draw R S (Quantity R)) :=
  (free_require _ _).bind fun _ => (free_ofExcept _).bind fun _ => (free_ofExcept _).bind fun _ =>
    (lognormal_readsUnitLast count _ _ confidence).careful_unit .one

/-! ### The gamma family -/

theorem sure_gammaPasses (g : GammaShape R) (limit : Nat) (f : Filling R) :
    Sure (gammaPasses g limit f : Draw R S (Filling R)) := by
  induction limit generalizing f with
  | zero =>
    intro s e t h
    cases h
    rfl
  | succ limit ih =>
    refine .ite (sure_pure f) (Sure.bind_any ?_ ih)
    exact (sure_lift _).bind_any fun _ => (sure_lift _).bind_any fun _ => sure_pure _

theorem sure_gammaLarge (limit : Nat) (shape : R) (n : SampleCount) :
    Sure (gammaLarge limit shape n : Draw R S (Sample R)) :=
  (sure_gammaPasses _ _ _).bind (gammaPasses_full _ _ (Filling.sound_start _)) fun _ hfull =>
    sure_toSample (hfull.1.length_numbers hfull.2)

theorem sure_standardGamma (shape : R) (n : SampleCount) :
    Sure (standardGamma shape n : Draw R S (Sample R)) := by
  refine .ite ?_ (sure_gammaLarge _ _ _)
  exact (sure_gammaLarge _ _ _).bind_any fun _ => (sure_lift _).bind_any fun _ => sure_pure _

theorem gamma_readsUnitLast (shape scale : R) :
    ReadsUnitLast (S := S) fun unit => gamma shape scale ⟨count, unit⟩ := by
  refine .after (free_requireFinite _ _) fun _ => .after (free_require _ _) fun _ => ?_
  refine .after (free_require _ _) fun _ => .after (free_ofExcept count) fun n => ?_
  exact .draws (sure_standardGamma shape n).careful _

theorem beta_readsUnitLast (a b : R) :
    ReadsUnitLast (S := S) fun unit => beta a b ⟨count, unit⟩ := by
  refine .after (free_requireFinite _ _) fun _ => .after (free_require _ _) fun _ => ?_
  refine .after (free_require _ _) fun _ => .after (free_ofExcept count) fun n => ?_
  have hquotients : Sure (do
      let x ← standardGamma a n
      let y ← standardGamma b n
      return x.zipWith (fun x y => x / (x + y)) y : Draw R S (Sample R)) :=
    (sure_standardGamma a n).bind_any fun _ => (sure_standardGamma b n).bind_any fun _ => sure_pure _
  have hdraws := ReadsUnitLast.draws hquotients.careful id
  simp only [bind_assoc, pure_bind] at hdraws
  exact hdraws

theorem careful_outOf (successes total : R) :
    Careful (outOf successes total count : Draw R S (Quantity R)) :=
  (free_require _ _).bind fun _ => (free_require _ _).bind fun _ => (beta_readsUnitLast count _ _).careful_unit .one

theorem careful_against (pro contra : R) :
    Careful (against pro contra count : Draw R S (Quantity R)) :=
  (free_require _ _).bind fun _ => (free_require _ _).bind fun _ => (beta_readsUnitLast count _ _).careful_unit .one

/-! ### Counts -/

theorem sure_countingPasses (limit : R) (passes : Nat) (particles : List (Counting R)) :
    Sure (countingPasses limit passes particles : Draw R S (List (Counting R))) := by
  induction passes generalizing particles with
  | zero =>
    intro s e t h
    cases h
    rfl
  | succ passes ih =>
    exact .ite (Sure.bind_any ((sure_lift _).bind_any fun _ => sure_pure _) ih) (sure_pure particles)

theorem sure_countedOut (passes : Nat) (rate : R) (n : SampleCount) :
    Sure (countedOut passes rate n : Draw R S (Sample R)) := by
  refine (sure_countingPasses _ _ _).bind (countingPasses_length _ _ _) fun counted hcounted => ?_
  refine sure_toSample (n := n) ?_
  rw [List.length_map, hcounted, List.length_replicate]

theorem sure_trialCounts (trials : Nat) (p : R) (m : Nat) :
    Sure (trialCounts trials p m : Draw R S (List R)) := by
  induction m with
  | zero => exact sure_pure _
  | succ m ih => exact (sure_lift _).bind_any fun _ => ih.bind_any fun _ => sure_pure _

theorem poisson_readsUnitLast (rate : R) :
    ReadsUnitLast (S := S) fun unit => poisson rate ⟨count, unit⟩ := by
  refine .after (free_requireFinite _ _) fun _ => .after (free_require _ _) fun _ => ?_
  refine .after (free_ofExcept count) fun n => .ite ?_ (.draws (sure_lift _).careful _)
  exact .draws (sure_countedOut _ rate n).careful id

theorem binomial_readsUnitLast (trials p : R) :
    ReadsUnitLast (S := S) fun unit => binomial trials p ⟨count, unit⟩ := by
  refine .after (free_requireFinite _ _) fun _ => .after (free_require _ _) fun _ => ?_
  refine .after (free_require _ _) fun _ => .after (free_ofExcept count) fun n => ?_
  refine .ite ?_ (.draws (sure_lift _).careful _)
  have hcounts : Sure (trialCounts (Sample.wholePart trials) p n.size >>= toSample : Draw R S (Sample R)) :=
    (sure_trialCounts _ _ _).bind (trialCounts_length _ _ _) fun _ hlength => sure_toSample hlength
  have hdraws := ReadsUnitLast.draws hcounts.careful id
  simp only [bind_assoc] at hdraws
  exact hdraws

end

end Sampler

/-! ## Calls of samplers -/

/-- A sampler and its parameters, all but the number of particles and the unit. -/
inductive SamplerCall (R : Type) where
  | distribution (d : Distribution) (confidence : Written R) (arguments : List R)
  | weighted (values weights : List R)

namespace SamplerCall

open Sampler

variable [Scalar R] [RandomSource S R]

/-- The sampler, if it takes so many parameters. -/
def sampler? (frame : SampleFrame R) : SamplerCall R → Option (Draw R S (Quantity R))
  | distribution d confidence arguments => d.sampler? confidence frame arguments
  | weighted values weights => some (Sampler.weighted values weights frame)

/-- Success rates, odds and error factors have no unit. -/
def takesUnit : SamplerCall R → Bool
  | distribution d _ _ =>
    match d with
    | .outOf | .against | .percent | .decibels => false
    | _ => true
  | weighted _ _ => true

/-- A call that takes a unit reads it last, and one that takes none never fails when it has drawn. -/
theorem sampler?_eq_some {call : SamplerCall R} {frame : SampleFrame R} {sampler : Draw R S (Quantity R)}
    (h : call.sampler? frame = some sampler) :
    ∃ k : UnitChoice R → Draw R S (Quantity R),
      (∀ unit, call.sampler? ⟨frame.count, unit⟩ = some (k unit)) ∧
        if call.takesUnit then Draw.ReadsUnitLast k else ∀ unit, k unit = k .none ∧ Draw.Careful (k .none) := by
  cases call with
  | weighted values weights => exact ⟨_, fun _ => rfl, weighted_readsUnitLast _ values weights⟩
  | distribution d confidence arguments =>
    rw [sampler?, Distribution.sampler?.eq_def] at h
    -- of all pairs of a distribution and its arguments only those that fit are left
    split at h
    all_goals cases h
    · exact ⟨_, fun _ => rfl, interval_readsUnitLast _ _ _ confidence⟩
    · exact ⟨_, fun _ => rfl, lognormal_readsUnitLast _ _ _ confidence⟩
    · exact ⟨_, fun _ => rfl, normal_readsUnitLast _ _ _ confidence⟩
    · exact ⟨_, fun _ => rfl, uniform_readsUnitLast _ _ _⟩
    · exact ⟨_, fun _ => rfl, plusMinus_readsUnitLast _ _ _⟩
    · -- a range of plain numbers takes no unit
      exact ⟨fun _ => _, fun _ => rfl, fun _ => ⟨rfl, careful_outOf _ _ _⟩⟩
    · exact ⟨fun _ => _, fun _ => rfl, fun _ => ⟨rfl, careful_against _ _ _⟩⟩
    · exact ⟨_, fun _ => rfl, beta_readsUnitLast _ _ _⟩
    · exact ⟨_, fun _ => rfl, gamma_readsUnitLast _ _ _⟩
    · exact ⟨_, fun _ => rfl, gamma_readsUnitLast _ _ _⟩
    · exact ⟨_, fun _ => rfl, poisson_readsUnitLast _ _⟩
    · exact ⟨_, fun _ => rfl, exponential_readsUnitLast _ _⟩
    · exact ⟨_, fun _ => rfl, exponentialMean_readsUnitLast _ _⟩
    · exact ⟨_, fun _ => rfl, binomial_readsUnitLast _ _ _⟩
    · exact ⟨fun _ => _, fun _ => rfl, fun _ => ⟨rfl, careful_percent _ _ confidence⟩⟩
    · exact ⟨fun _ => _, fun _ => rfl, fun _ => ⟨rfl, careful_decibels _ _ confidence⟩⟩
    · exact ⟨fun _ => _, fun _ => rfl, fun _ => ⟨rfl, careful_decibels _ _ confidence⟩⟩

/-- **A call that fails** has drawn nothing, or it has drawn all and cannot read the text of its unit. -/
theorem failed_draw_iff {call : SamplerCall R} {count : Except (Fault R) SampleCount} {unit : UnitChoice R}
    {sampler plain : Draw R S (Quantity R)} (hsampler : call.sampler? ⟨count, unit⟩ = some sampler)
    (hplain : call.sampler? (.plain count) = some plain) {s t : S} {f : Fault R} (hf : f ≠ .exhausted) :
    sampler.run s = (.error f, t) ↔
      (plain.run s = (.error f, t) ∧ t = s) ∨
        call.takesUnit = true ∧ ∃ text q, unit = .text text ∧ CompoundUnit.ofText text = .error f ∧
          plain.run s = (.ok q, t) := by
  obtain ⟨k, hk, hshape⟩ := sampler?_eq_some hsampler
  obtain rfl := Option.some.inj (hsampler.symm.trans (hk unit))
  obtain rfl := Option.some.inj (hplain.symm.trans (hk .none))
  by_cases htakes : call.takesUnit = true
  · rw [if_pos htakes] at hshape
    rw [and_iff_right htakes]
    exact hshape.run_eq_error hf
  · rw [if_neg htakes] at hshape
    obtain ⟨hsame, hcareful⟩ := hshape unit
    rw [hsame, or_iff_left fun h => htakes h.1]
    exact ⟨fun hrun => ⟨hrun, (hcareful s f t hrun).resolve_left hf⟩, And.left⟩

/-- The text of a unit that ends after its slash. -/
theorem ofText_metre_slash : ∃ f : Fault ℝ, CompoundUnit.ofText "m /" = .error f ∧ f ≠ .exhausted :=
  ⟨_, rfl, nofun⟩

/-- A uniform number that is drawn and has no unit. -/
theorem uniform_one : ∃ q, (uniform 0 1 (.plain (.ok ⟨1, by decide⟩)) : Draw ℝ (ScriptedSource ℝ) _).run
    ⟨[1 / 2], []⟩ = (.ok q, ⟨[], []⟩) :=
  ⟨_, uniform_run zero_lt_one ⟨1, by decide⟩ .one _⟩

/-- With such a unit the number is drawn and lost. -/
theorem uniform_fails_late :
    let call : SamplerCall ℝ := .distribution .uniform (.decimal 0.9) [0, 1]
    ∃ (sampler plain : Draw ℝ (ScriptedSource ℝ) (Quantity ℝ)) (f : Fault ℝ),
      call.sampler? ⟨.ok ⟨1, by decide⟩, .text "m /"⟩ = some sampler ∧
      call.sampler? (.plain (.ok ⟨1, by decide⟩)) = some plain ∧
      f ≠ .exhausted ∧ sampler.run ⟨[1 / 2], []⟩ = (.error f, ⟨[], []⟩) := by
  intro call
  obtain ⟨f, htext, hf⟩ := ofText_metre_slash
  obtain ⟨q, hplain⟩ := uniform_one
  have hsampler : call.sampler? ⟨.ok ⟨1, by decide⟩, .text "m /"⟩ =
      some (uniform 0 1 ⟨.ok ⟨1, by decide⟩, .text "m /"⟩ : Draw ℝ (ScriptedSource ℝ) _) := rfl
  refine ⟨_, _, f, hsampler, rfl, hf, ?_⟩
  exact (failed_draw_iff hsampler rfl hf).mpr (.inr ⟨rfl, "m /", q, rfl, htext, hplain⟩)

/-- So a sampler that fails may have drawn before. -/
theorem failed_draw_shifts :
    ∃ (f : Fault ℝ) (s t : ScriptedSource ℝ), t ≠ s ∧
      (Sampler.uniform 0 1 ⟨.ok ⟨1, by decide⟩, .text "m /"⟩).run s = (.error f, t) := by
  obtain ⟨f, htext, hf⟩ := ofText_metre_slash
  obtain ⟨q, hplain⟩ := uniform_one
  refine ⟨f, ⟨[1 / 2], []⟩, ⟨[], []⟩, by simp, ?_⟩
  exact ((uniform_readsUnitLast _ 0 1).run_eq_error hf).mpr (.inr ⟨"m /", q, rfl, htext, hplain⟩)

end SamplerCall

end Ballpark
