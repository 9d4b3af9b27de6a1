import Ballpark.Proofs.EvaluationOutcome

/-!
# What drawing comes to

A sampler refuses its parameters, or it ends in one of the faults of evaluation: a logarithm of nothing
from bounds whose product or quotient is no positive number any more, the arithmetic of spreads and
decibels, and rejection or counting that goes on for too many passes. If it does not fail it gives
particles in the unit of its frame (`SampleFrame.Gives`). None of this depends on the random source.
-/

namespace Ballpark

variable {R S α β : Type}

/-- The text of a constant's unit. -/
def Constant.unitText : Constant R → String
  | .exact _ unit | .plusMinus _ _ unit | .interval _ _ unit | .oneOf _ _ unit => unit

/-- The texts that are read for a choice of unit. -/
def UnitChoice.texts : UnitChoice R → List String
  | .unit _ => []
  | .text t => [t]

variable [Scalar R] {texts : List String}

/-- A sampler that ends in a result or in a fault of evaluation, whatever it draws. -/
abbrev Draw.Proper (texts : List String) (d : Draw R S α) : Prop :=
  Keeps (fun _ => True) d (fun _ => True) (Fault.From texts)

namespace Draw

theorem ofExcept_proper {e : Except (Fault R) α} (h : Ballpark.Proper texts e) :
    Proper texts (ofExcept e : Draw R S α) :=
  fun _ _ => ⟨h, True.intro⟩

theorem lift_proper (x : StateM S α) : Proper texts (ExceptT.lift x : Draw R S α) :=
  .lift fun _ _ => ⟨True.intro, True.intro⟩

theorem require_proper (c : Bool) (p : ParameterFault R) :
    Proper texts (require c p : Draw R S PUnit) := by
  refine ofExcept_proper ?_
  split
  · exact .ok True.intro
  · exact .error True.intro

theorem requireFinite_proper (sampler : String) (xs : List R) :
    Proper texts (requireFinite sampler xs : Draw R S PUnit) :=
  require_proper _ _

end Draw

namespace SampleFrame

/-- A sampler that gives particles in the unit of its frame, or ends in a fault of evaluation. -/
abbrev Gives (frame : SampleFrame R) (d : Draw R S (Quantity R)) : Prop :=
  Keeps (fun _ => True) d (fun q => ∃ s, frame.unit.apply s = .ok q) (Fault.From frame.unit.texts)

theorem finish_gives (frame : SampleFrame R) (s : Sample R) :
    frame.Gives (frame.finish s : Draw R S (Quantity R)) := by
  refine fun _ _ => ⟨?_, True.intro⟩
  have hproper : Proper frame.unit.texts (frame.unit.apply s) := by
    rcases frame.unit with u | text
    · exact .ok True.intro
    · exact (UnitClass.ofText_gives (C := .all R) (.sample s) (List.mem_singleton_self text)).mono
        (fun _ _ => True.intro) fun _ => id
  exact hproper.strengthen fun q hq => ⟨s, hq⟩

end SampleFrame

theorem Checked.sqrt_proper (x : R) : Proper texts (Checked.sqrt x) := by
  rw [Checked.sqrt]
  split
  · exact .ok True.intro
  · exact .error (.inl rfl)

theorem Checked.log_proper (x : R) : Proper texts (Checked.log x) := by
  rw [Checked.log]
  split
  · exact .ok True.intro
  · exact .error (.inl rfl)

namespace Sampler

open Draw

/-- A logarithm of a root. -/
theorem log_sqrt_proper (x : R) : Ballpark.Proper texts (do Checked.log (← Checked.sqrt x)) :=
  (Checked.sqrt_proper x).bind fun y _ => Checked.log_proper y

theorem centralBound_proper (confidence : Written R) : Ballpark.Proper texts (centralBound confidence) := by
  simp only [centralBound]
  split
  · exact .ok True.intro
  · exact .error True.intro

theorem toSample_proper (xs : List R) : Draw.Proper texts (toSample xs : Draw R S (Sample R)) := by
  rw [toSample]
  split
  · exact .pure True.intro
  · exact .throw True.intro

variable [RandomSource S R]

/-! ## Intervals -/

section

variable {frame : SampleFrame R} (h : Ballpark.Proper frame.unit.texts frame.count)
include h

theorem lognormal_gives (a b : R) (confidence : Written R) :
    frame.Gives (S := S) (lognormal a b confidence frame) := by
  refine (requireFinite_proper _ _).bind fun _ _ => (require_proper _ _).bind fun _ _ => ?_
  refine (require_proper _ _).bind fun _ _ => (ofExcept_proper h).bind fun n _ => ?_
  refine (ofExcept_proper (log_sqrt_proper _)).bind fun center _ => ?_
  have hspread : Ballpark.Proper frame.unit.texts (do
      Checked.div (← Checked.log (← Checked.sqrt (b / a))) (← centralBound confidence)) :=
    (Checked.sqrt_proper _).bind fun _ _ => (Checked.log_proper _).bind fun _ _ =>
      (centralBound_proper confidence).bind fun _ _ => Proper.of_arithmetic (Checked.div_ends _ _)
  refine (ofExcept_proper hspread).bind fun spread _ => ?_
  exact (lift_proper _).bind fun z _ => frame.finish_gives _

theorem normal_gives (a b : R) (confidence : Written R) :
    frame.Gives (S := S) (normal a b confidence frame) := by
  refine (requireFinite_proper _ _).bind fun _ _ => (require_proper _ _).bind fun _ _ => ?_
  refine (ofExcept_proper h).bind fun n _ => ?_
  have hspread : Ballpark.Proper frame.unit.texts (do
      Checked.div (Scalar.ofRat 0.5 * (b - a)) (← centralBound confidence)) :=
    (centralBound_proper confidence).bind fun _ _ => Proper.of_arithmetic (Checked.div_ends _ _)
  refine (ofExcept_proper hspread).bind fun spread _ => ?_
  exact (lift_proper _).bind fun z _ => frame.finish_gives _

theorem interval_gives (a b : R) (confidence : Written R) :
    frame.Gives (S := S) (interval a b confidence frame) :=
  .ite (fun _ => lognormal_gives h a b confidence) fun _ => normal_gives h a b confidence

theorem plusMinus_gives (mean deviation : R) :
    frame.Gives (S := S) (plusMinus mean deviation frame) := by
  refine (requireFinite_proper _ _).bind fun _ _ => (require_proper _ _).bind fun _ _ => ?_
  refine (ofExcept_proper h).bind fun n _ => ?_
  exact (lift_proper _).bind fun z _ => frame.finish_gives _

theorem uniform_gives (a b : R) : frame.Gives (S := S) (uniform a b frame) := by
  refine (requireFinite_proper _ _).bind fun _ _ => (require_proper _ _).bind fun _ _ => ?_
  refine (ofExcept_proper h).bind fun n _ => ?_
  have hbetween : Draw.Proper frame.unit.texts (uniformBetween a b n : Draw R S (Sample R)) :=
    .ite (fun _ => (lift_proper _).bind fun _ _ => .pure True.intro) fun _ => .throw True.intro
  exact hbetween.bind fun s _ => frame.finish_gives s

theorem exponential_gives (rate : R) : frame.Gives (S := S) (exponential rate frame) := by
  refine (requireFinite_proper _ _).bind fun _ _ => (require_proper _ _).bind fun _ _ => ?_
  refine (ofExcept_proper h).bind fun n _ => ?_
  exact (lift_proper _).bind fun u _ => frame.finish_gives _

theorem exponentialMean_gives (mean : R) : frame.Gives (S := S) (exponentialMean mean frame) :=
  (require_proper _ _).bind fun _ _ => exponential_gives h _

theorem weighted_gives (values weights : List R) :
    frame.Gives (S := S) (weighted values weights frame) := by
  rcases values with _ | ⟨first, rest⟩
  · exact .throw True.intro
  · refine (require_proper _ _).bind fun _ _ => (requireFinite_proper _ _).bind fun _ _ => ?_
    refine (require_proper _ _).bind fun _ _ => (require_proper _ _).bind fun _ _ => ?_
    refine (ofExcept_proper h).bind fun n _ => ?_
    exact (lift_proper _).bind fun u _ => frame.finish_gives _

end

section

variable {count : Except (Fault R) SampleCount} (h : Ballpark.Proper [] count)
include h

theorem percent_gives (percentage : R) (confidence : Written R) :
    (SampleFrame.plain count).Gives (S := S) (percent percentage confidence count) :=
  (require_proper _ _).bind fun _ _ => lognormal_gives h _ _ confidence

theorem decibels_gives (size : R) (confidence : Written R) :
    (SampleFrame.plain count).Gives (S := S) (decibels size confidence count) := by
  refine (require_proper _ _).bind fun _ _ => ?_
  refine (ofExcept_proper (Proper.of_arithmetic (Checked.pow_ends _ _))).bind fun low _ => ?_
  refine (ofExcept_proper (Proper.of_arithmetic (Checked.pow_ends _ _))).bind fun high _ => ?_
  exact lognormal_gives h low high confidence

end

/-! ## The gamma family -/

/-- Induction on the passes that may still be made. -/
theorem gammaPasses_proper (g : GammaShape R) (limit : Nat) (f : Filling R) :
    Draw.Proper texts (S := S) (gammaPasses g limit f) := by
  induction limit generalizing f with
  | zero => exact .throw True.intro
  | succ limit ih =>
    have hpass : Draw.Proper texts (S := S) (gammaPass g f) :=
      (lift_proper _).bind fun x _ => (lift_proper _).bind fun u _ => .pure True.intro
    exact .ite (fun _ => .pure True.intro) fun _ => hpass.bind fun filled _ => ih filled

theorem gammaLarge_proper (limit : Nat) (shape : R) (n : SampleCount) :
    Draw.Proper texts (S := S) (gammaLarge limit shape n) :=
  (gammaPasses_proper _ _ _).bind fun _ _ => toSample_proper _

theorem standardGamma_proper (shape : R) (n : SampleCount) :
    Draw.Proper texts (S := S) (standardGamma shape n) := by
  refine .ite (fun _ => ?_) fun _ => gammaLarge_proper _ shape n
  refine (gammaLarge_proper _ _ n).bind fun boosted _ => ?_
  exact (lift_proper _).bind fun u _ => .pure True.intro

section

variable {frame : SampleFrame R} (h : Ballpark.Proper frame.unit.texts frame.count)
include h

theorem gamma_gives (shape scale : R) : frame.Gives (S := S) (gamma shape scale frame) := by
  refine (requireFinite_proper _ _).bind fun _ _ => (require_proper _ _).bind fun _ _ => ?_
  refine (require_proper _ _).bind fun _ _ => (ofExcept_proper h).bind fun n _ => ?_
  exact (standardGamma_proper shape n).bind fun y _ => frame.finish_gives _

theorem beta_gives (a b : R) : frame.Gives (S := S) (beta a b frame) := by
  refine (requireFinite_proper _ _).bind fun _ _ => (require_proper _ _).bind fun _ _ => ?_
  refine (require_proper _ _).bind fun _ _ => (ofExcept_proper h).bind fun n _ => ?_
  refine (standardGamma_proper a n).bind fun x _ => ?_
  exact (standardGamma_proper b n).bind fun y _ => frame.finish_gives _

end

section

variable {count : Except (Fault R) SampleCount} (h : Ballpark.Proper [] count)
include h

theorem outOf_gives (successes total : R) :
    (SampleFrame.plain count).Gives (S := S) (outOf successes total count) :=
  (require_proper _ _).bind fun _ _ => (require_proper _ _).bind fun _ _ => beta_gives h _ _

theorem against_gives (pro contra : R) :
    (SampleFrame.plain count).Gives (S := S) (against pro contra count) :=
  (require_proper _ _).bind fun _ _ => (require_proper _ _).bind fun _ _ => beta_gives h _ _

end

/-! ## Counts -/

/-- Induction on the passes that may still be made. -/
theorem countingPasses_proper (limit : R) (passes : Nat) (particles : List (Counting R)) :
    Draw.Proper texts (S := S) (countingPasses limit passes particles) := by
  induction passes generalizing particles with
  | zero => exact .throw True.intro
  | succ passes ih =>
    have hpass : Draw.Proper texts (S := S) (countingPass limit particles) :=
      (lift_proper _).bind fun _ _ => .pure True.intro
    exact .ite (fun _ => hpass.bind fun counted _ => ih counted) fun _ => .pure True.intro

theorem countedOut_proper (passes : Nat) (rate : R) (n : SampleCount) :
    Draw.Proper texts (S := S) (countedOut passes rate n) :=
  (countingPasses_proper _ _ _).bind fun _ _ => toSample_proper _

theorem trialCounts_proper (trials : Nat) (p : R) (n : Nat) :
    Draw.Proper texts (S := S) (trialCounts trials p n) := by
  induction n with
  | zero => exact .pure True.intro
  | succ n ih => exact (lift_proper _).bind fun u _ => ih.bind fun _ _ => .pure True.intro

variable {frame : SampleFrame R} (h : Ballpark.Proper frame.unit.texts frame.count)
include h

theorem poisson_gives (rate : R) : frame.Gives (S := S) (poisson rate frame) := by
  refine (requireFinite_proper _ _).bind fun _ _ => (require_proper _ _).bind fun _ _ => ?_
  refine (ofExcept_proper h).bind fun n _ => .ite (fun _ => ?_) fun _ => ?_
  · exact (countedOut_proper _ _ _).bind fun s _ => frame.finish_gives s
  · exact (lift_proper _).bind fun z _ => frame.finish_gives _

theorem binomial_gives (trials p : R) : frame.Gives (S := S) (binomial trials p frame) := by
  refine (requireFinite_proper _ _).bind fun _ _ => (require_proper _ _).bind fun _ _ => ?_
  refine (require_proper _ _).bind fun _ _ => (ofExcept_proper h).bind fun n _ => ?_
  refine .ite (fun _ => ?_) fun _ => ?_
  · refine (trialCounts_proper _ _ _).bind fun counts _ => ?_
    exact (toSample_proper _).bind fun s _ => frame.finish_gives s
  · exact (lift_proper _).bind fun z _ => frame.finish_gives _

end Sampler

/-! ## Distributions, constants and builtin functions -/

namespace UnitClass

variable {C : UnitClass R}

/-- A sampler that ends in a quantity of the class, or in a fault of evaluation. -/
abbrev Draws (C : UnitClass R) (texts : List String) (d : Draw R S (Quantity R)) : Prop :=
  Keeps (fun _ => True) d C.Val (Fault.From texts)

theorem Draws.of_gives {frame : SampleFrame R} {d : Draw R S (Quantity R)} (h : frame.Gives d)
    (hunit : ∀ u, frame.unit = .unit u → C.Mem u) : C.Draws frame.unit.texts d := by
  refine h.mono (fun q hq => ?_) fun _ => id
  obtain ⟨s, hs⟩ := hq
  rcases hchoice : frame.unit with u | text
  · rw [hchoice] at hs
    cases hs
    exact hunit u hchoice
  · rw [hchoice] at hs
    exact (ofText_gives _ (List.mem_singleton_self text)).of_ok hs

variable [RandomSource S R]

theorem distribution_gives {d : Distribution} {confidence : Written R}
    {count : Except (Fault R) SampleCount} (hcount : Proper [] count) {arguments : List R}
    {sampler : Draw R S (Quantity R)}
    (hsampler : d.sampler? confidence (.plain count) arguments = some sampler) :
    (SampleFrame.plain count).Gives sampler := by
  have h : Proper [] (SampleFrame.plain count).count := hcount
  rw [Distribution.sampler?.eq_def] at hsampler
  split at hsampler
  all_goals cases hsampler
  · exact Sampler.interval_gives h _ _ _
  · exact Sampler.lognormal_gives h _ _ _
  · exact Sampler.normal_gives h _ _ _
  · exact Sampler.uniform_gives h _ _
  · exact Sampler.plusMinus_gives h _ _
  · exact Sampler.outOf_gives h _ _
  · exact Sampler.against_gives h _ _
  · exact Sampler.beta_gives h _ _
  · exact Sampler.gamma_gives h _ _
  · exact Sampler.gamma_gives h _ _
  · exact Sampler.poisson_gives h _
  · exact Sampler.exponential_gives h _
  · exact Sampler.exponentialMean_gives h _
  · exact Sampler.binomial_gives h _ _
  · exact Sampler.percent_gives h _ _
  · exact Sampler.decibels_gives h _ _
  · exact Sampler.decibels_gives h _ _

/-- No builtin function reads a text. -/
theorem builtin_draws {function : Builtin} {confidence : Written R}
    {count : Except (Fault R) SampleCount} (hcount : Proper [] count) {arguments : List (Quantity R)}
    (harguments : ∀ q ∈ arguments, C.Val q) {call : Draw R S (Quantity R)}
    (hcall : function.call? confidence (.plain count) arguments = some call) : C.Draws [] call := by
  cases function with
  | distribution d =>
    refine .of_gives (distribution_gives hcount hcall) fun u hu => ?_
    cases hu
    exact C.one
  | math f =>
    obtain ⟨e, he, rfl⟩ := Option.map_eq_some_iff.mp hcall
    exact fun _ _ => ⟨(operation_stays f).call harguments he, True.intro⟩

/-- The unit of a constant is read from its text. -/
theorem constant_draws (constant : Constant R) (confidence : Written R)
    {count : Except (Fault R) SampleCount} (hcount : Proper [] count) :
    C.Draws (S := S) [constant.unitText] (constant.draw confidence count) := by
  have h : ∀ text, Proper [text] (SampleFrame.mk count (.text text)).count := fun _ =>
    hcount.mono (fun _ => id) fun _ hf => hf.mono (List.nil_subset _)
  cases constant with
  | exact value unit => exact fun _ _ => ⟨ofText_gives _ (List.mem_singleton_self unit), True.intro⟩
  | plusMinus _ _ unit => exact .of_gives (Sampler.plusMinus_gives (h unit) _ _) fun _ hu => nomatch hu
  | interval _ _ unit => exact .of_gives (Sampler.lognormal_gives (h unit) _ _ _) fun _ hu => nomatch hu
  | oneOf _ _ unit => exact .of_gives (Sampler.weighted_gives (h unit) _ _) fun _ hu => nomatch hu

theorem remember_keeps (confidence : Written R) {count : Except (Fault R) SampleCount}
    (hcount : Proper [] count) (name : String) {drawn : Bindings (Quantity R)} (hdrawn : drawn.All C.Val) :
    Keeps (σ := S) (fun _ => True) (Constant.remember confidence count name drawn)
      (fun r => (∀ q, r.1 = some q → C.Val q) ∧ r.2.All C.Val)
      (Fault.From ((Constant.ofName? (R := R) name).toList.map (·.unitText))) := by
  rw [Constant.remember]
  split
  · exact .pure ⟨fun _ hq => (nomatch hq), hdrawn⟩
  rename_i constant hconstant
  rw [hconstant]
  split
  · rename_i q hq
    exact .pure ⟨fun p hp => Option.some.inj hp ▸ hdrawn _ q hq, hdrawn⟩
  · refine Keeps.bind (constant_draws (C := C) constant confidence hcount) fun q hq => ?_
    exact .pure ⟨fun p hp => Option.some.inj hp ▸ hq, hdrawn.set _ hq⟩

end UnitClass

end Ballpark
