import Ballpark.Proofs.Interval
import Ballpark.Proofs.SamplerSize

/-!
# Counting by the product of uniform numbers

The Poisson sampler of small rates makes passes in which all active particles are handed a number. A run is
recorded with its passes (`Counting.Run`): the numbers of each, beside the particles that they were handed to.
The sampler succeeds exactly if there is such a run within its limit (`countingPasses_run_iff`). No particle
sees the numbers of another one: each goes through the states that it would go through alone
(`Counting.Passes.alone`), and stays as it is from the moment it stops (`Counting.Passes.rests`). Alone, a
particle needs the first of its numbers up to the place where their product is not above the limit any more
(`Counting.isLeast_length`).
-/

namespace Ballpark.Sampler

open Evaluation

variable {R S : Type} [Scalar R] {limit : R} {i : Nat}

/-! ## One particle -/

/-- The numbers that some passes hand to a particle. -/
def numbersFor (i : Nat) (passes : List (List (Option R))) : List R :=
  passes.filterMap (handed? · i)

namespace Counting

/-- A particle that is counted alone, one number in each pass. -/
def alone (limit : R) (p : Counting R) (u : List R) : Counting R :=
  u.foldl (fun p x => (p.step x).recheck limit) p

theorem move_some (p : Counting R) (x : R) : p.move limit (some x) = (p.step x).recheck limit := rfl

end Counting

omit [Scalar R] in
theorem numbersFor_cons_none {handed : List (Option R)} (passes : List (List (Option R)))
    (h : handed? handed i = none) : numbersFor i (handed :: passes) = numbersFor i passes :=
  List.filterMap_cons_none h

omit [Scalar R] in
theorem numbersFor_cons_some {handed : List (Option R)} (passes : List (List (Option R))) {x : R}
    (h : handed? handed i = some x) : numbersFor i (handed :: passes) = x :: numbersFor i passes :=
  List.filterMap_cons_some h

/-! ## All particles -/

namespace Counting

/-- The particles after some passes. -/
def after (limit : R) (particles : List (Counting R)) (passes : List (List (Option R))) : List (Counting R) :=
  passes.foldl (stepAll limit) particles

/-- Passes that can be made one after the other: each hands a number to exactly the active particles. -/
def Passes (limit : R) : List (Counting R) → List (List (Option R)) → Prop
  | _, [] => True
  | particles, handed :: passes => Handed particles handed ∧ Passes limit (stepAll limit particles handed) passes

variable {particles counted : List (Counting R)} {passes : List (List (Option R))} {p : Counting R}

theorem Passes.append {earlier later : List (List (Option R))} :
    Passes limit particles (earlier ++ later) ↔
      Passes limit particles earlier ∧ Passes limit (after limit particles earlier) later := by
  induction earlier generalizing particles with
  | nil => exact iff_of_eq (true_and _).symm
  | cons handed earlier ih => exact (and_congr_right fun _ => ih).trans and_assoc.symm

theorem Passes.take (h : Passes limit particles passes) (k : Nat) : Passes limit particles (passes.take k) := by
  rw [← List.take_append_drop k passes] at h
  exact (append.mp h).1

/-- A particle that has stopped is handed nothing more and stays as it is. -/
theorem Passes.of_stopped (h : Passes limit particles passes) (hp : particles[i]? = some p)
    (hresting : p.Resting limit) (hstopped : p.active = false) :
    numbersFor i passes = [] ∧ (after limit particles passes)[i]? = some p := by
  induction passes generalizing particles with
  | nil => exact ⟨rfl, hp⟩
  | cons handed passes ih =>
    have hnone : handed? handed i = none := by
      have hsome := h.1.isSome_handed? hp
      rwa [hstopped, Option.isSome_eq_false_iff, Option.isNone_iff_eq_none] at hsome
    have hnext : (stepAll limit particles handed)[i]? = some p := by
      rw [getElem?_stepAll h.1.length_eq, hp, hnone, Option.map_some, hresting.move_none hstopped]
    obtain ⟨hnumbers, hafter⟩ := ih h.2 hnext
    exact ⟨(numbersFor_cons_none passes hnone).trans hnumbers, hafter⟩

/-- **Each particle is counted as if it were alone**, with the numbers that it is handed, and it is handed no more
of them than it needs. -/
theorem Passes.alone (h : Passes limit particles passes) (hp : particles[i]? = some p)
    (hresting : p.Resting limit) :
    (after limit particles passes)[i]? = some (p.alone limit (numbersFor i passes)) ∧
      ∀ k < (numbersFor i passes).length, (p.alone limit ((numbersFor i passes).take k)).active = true := by
  induction passes generalizing particles p with
  | nil => exact ⟨hp, fun k hk => absurd hk (Nat.not_lt_zero k)⟩
  | cons handed passes ih =>
    -- a particle that has stopped goes through the passes on its own; an active one is handed its next number
    rcases hactive : p.active with _ | _
    · obtain ⟨hnumbers, hafter⟩ := h.of_stopped hp hresting hactive
      rw [hnumbers]
      exact ⟨hafter, fun k hk => absurd hk (Nat.not_lt_zero k)⟩
    · obtain ⟨x, hx⟩ := Option.isSome_iff_exists.mp ((h.1.isSome_handed? hp).trans hactive)
      have hnext : (stepAll limit particles handed)[i]? = some ((p.step x).recheck limit) := by
        rw [getElem?_stepAll h.1.length_eq, hp, hx, Option.map_some, move_some]
      obtain ⟨hafter, hneeded⟩ := ih h.2 hnext (.move limit p (some x))
      rw [numbersFor_cons_some passes hx]
      refine ⟨hafter, fun k hk => ?_⟩
      cases k with
      | zero => exact hactive
      | succ k => exact hneeded k (Nat.lt_of_succ_lt_succ hk)

theorem resting_after (h : ∀ p ∈ particles, p.Resting limit) (passes : List (List (Option R))) :
    ∀ p ∈ after limit particles passes, p.Resting limit := by
  induction passes generalizing particles with
  | nil => exact h
  | cons handed passes ih =>
    refine ih fun q hq => ?_
    obtain ⟨p, -, rfl⟩ := List.mem_map.mp hq
    exact id

theorem Passes.length_after (h : Passes limit particles passes) :
    (after limit particles passes).length = particles.length := by
  induction passes generalizing particles with
  | nil => rfl
  | cons handed passes ih => exact (ih h.2).trans (length_stepAll limit h.1.length_eq)

/-- **Once a particle has stopped** no pass changes it. -/
theorem Passes.rests (h : Passes limit particles passes) (hresting : ∀ p ∈ particles, p.Resting limit)
    {k m : Nat} (hk : k ≤ m) (hp : (after limit particles (passes.take k))[i]? = some p)
    (hstopped : p.active = false) : (after limit particles (passes.take m))[i]? = some p := by
  -- the later passes are made on the particles that the earlier ones leave
  have hsplit : passes.take m = passes.take k ++ (passes.take m).drop k := by
    have happend := (List.take_append_drop k (passes.take m)).symm
    rwa [List.take_take, Nat.min_eq_left hk] at happend
  have hpasses := h.take m
  rw [hsplit] at hpasses ⊢
  have hrest := resting_after hresting (passes.take k) p (List.mem_of_getElem? hp)
  rw [after, List.foldl_append]
  exact ((Passes.append.mp hpasses).2.of_stopped hp hrest hstopped).2

/-! ## Runs -/

variable [RandomSource S R] {s t : S}

/-- **The passes of a run.** In each the active particles are handed the uniform numbers that are drawn, in
order; no particle is active when the passes end. -/
inductive Run (limit : R) : List (Counting R) → S → List (List (Option R)) → List (Counting R) → S → Prop
  | stop {particles : List (Counting R)} {s : S} :
      particles.any (·.active) = false → Run limit particles s [] particles s
  | pass {particles counted : List (Counting R)} {s s₁ t : S} {handed : List (Option R)}
      {passes : List (List (Option R))} :
      particles.any (·.active) = true → Handed particles handed →
      Draw.repeated RandomSource.uniform (particles.countP (·.active)) s = (handed.filterMap id, s₁) →
      Run limit (stepAll limit particles handed) s₁ passes counted t →
      Run limit particles s (handed :: passes) counted t

theorem Run.steps (h : Run limit particles s passes counted t) : Passes limit particles passes := by
  induction h with
  | stop _ => exact True.intro
  | pass _ hhanded _ _ ih => exact ⟨hhanded, ih⟩

theorem Run.after_eq (h : Run limit particles s passes counted t) : after limit particles passes = counted := by
  induction h with
  | stop _ => rfl
  | pass _ _ _ _ ih => exact ih

theorem Run.stopped (h : Run limit particles s passes counted t) : counted.any (·.active) = false := by
  induction h with
  | stop hstopped => exact hstopped
  | pass _ _ _ _ ih => exact ih

end Counting

section

variable [RandomSource S R] {s t : S}

theorem run_countingPass {particles : List (Counting R)} {u : List R}
    (hu : Draw.repeated RandomSource.uniform (particles.countP (·.active)) s = (u, t)) :
    (countingPass limit particles : Draw R S (List (Counting R))).run s =
      (.ok (stepAll limit particles (handOut particles u)), t) := by
  rw [countingPass, run_bind_of_ok (Draw.run_uniforms hu)]
  rfl

/-- The passes of the sampler end exactly if there is such a run within their limit. -/
theorem countingPasses_run_iff {m : Nat} {particles counted : List (Counting R)} :
    (countingPasses limit m particles : Draw R S (List (Counting R))).run s = (.ok counted, t) ↔
      ∃ passes, passes.length < m ∧ Counting.Run limit particles s passes counted t := by
  induction m generalizing particles s with
  | zero =>
    refine iff_of_false (fun h => ?_) fun ⟨ps, hps, _⟩ => Nat.not_lt_zero _ hps
    cases h
  | succ m ih =>
    rw [countingPasses]
    by_cases hactive : particles.any (·.active) = true
    · -- someone still counts: a pass hands out one number to each of them
      rw [if_pos hactive]
      rcases hu : Draw.repeated (RandomSource.uniform (S := S)) (particles.countP (·.active)) s with ⟨u, s₁⟩
      have hlength := Draw.length_repeated (RandomSource.uniform (S := S)) (particles.countP (·.active)) s
      rw [hu] at hlength
      rw [run_bind_of_ok (run_countingPass hu), ih]
      constructor
      · rintro ⟨passes, hpasses, hrun⟩
        refine ⟨_ :: passes, Nat.succ_lt_succ hpasses, .pass hactive (handed_handOut hlength) ?_ hrun⟩
        rw [hu, filterMap_handOut hlength]
      · rintro ⟨passes, hpasses, hrun⟩
        cases hrun with
        | stop hstopped =>
          rw [hactive] at hstopped
          cases hstopped
        -- the numbers of the pass are those that were drawn for it, in their order
        | pass _ hhanded hdrawn hrest =>
          rw [hu] at hdrawn
          cases hdrawn
          rw [hhanded.handOut_eq]
          exact ⟨_, Nat.lt_of_succ_lt_succ hpasses, hrest⟩
    · -- all have stopped, so the sampler stops as well
      rw [if_neg hactive, run_pure]
      constructor
      · intro h
        cases h
        exact ⟨[], Nat.succ_pos _, .stop (Bool.eq_false_iff.mpr hactive)⟩
      · rintro ⟨passes, -, hrun⟩
        cases hrun with
        | stop => rfl
        | pass hstill => exact absurd hstill hactive

end

/-! ## Exact numbers -/

namespace Counting

variable {limit : ℝ} {u : List ℝ}

theorem alone_product (p : Counting ℝ) (u : List ℝ) : (p.alone limit u).product = p.product * u.prod := by
  induction u generalizing p with
  | nil => exact (mul_one _).symm
  | cons x u ih =>
    rw [List.prod_cons, ← mul_assoc]
    exact ih _

theorem alone_count (p : Counting ℝ) (u : List ℝ) : (p.alone limit u).count = p.count + u.length := by
  induction u generalizing p with
  | nil => rfl
  | cons x u ih =>
    rw [List.length_cons, Nat.add_comm u.length, ← Nat.add_assoc]
    exact ih _

/-- After its first number a particle is active as long as its product is above the limit. -/
theorem alone_active (hu : u ≠ []) : (start.alone limit u).active = decide (limit < u.prod) := by
  obtain ⟨first, x, rfl⟩ := (List.eq_nil_or_concat u).resolve_left hu
  have hlast : (start.alone limit (first ++ [x])).active =
      Scalar.lt limit ((start.alone limit first).product * x) := by
    rw [alone, List.foldl_append]
    rfl
  have hstart : (start : Counting ℝ).product = 1 := Scalar.ofNat_real 1 |>.trans Nat.cast_one
  rw [List.concat_eq_append, hlast, alone_product, hstart, one_mul, List.prod_append, List.prod_singleton,
    Scalar.lt_real]

/-- So it needs the first numbers up to the place where their product is not above the limit any more. -/
theorem isLeast_length (hstopped : (start.alone limit u).active = false)
    (hneeded : ∀ k < u.length, (start.alone limit (u.take k)).active = true) :
    IsLeast {k | 1 ≤ k ∧ (u.take k).prod ≤ limit} u.length := by
  have hu : u ≠ [] := by
    rintro rfl
    cases hstopped
  constructor
  · refine ⟨List.length_pos_iff.mpr hu, ?_⟩
    rw [alone_active hu, decide_eq_false_iff_not, not_lt] at hstopped
    rwa [List.take_length]
  · rintro k ⟨hk, hprod⟩
    by_contra hlt
    have hactive := hneeded k (not_le.mp hlt)
    have hne : u.take k ≠ [] := by
      rw [Ne, List.take_eq_nil_iff]
      rintro (rfl | rfl)
      · cases hk
      · exact hu rfl
    rw [alone_active hne, decide_eq_true_eq] at hactive
    exact absurd hprod (not_le.mpr hactive)

end Counting

/-- What the passes of a run make of the count of `n` particles. -/
structure CountedEach (limit : ℝ) (n : Nat) (passes : List (List (Option ℝ))) (y : Sample ℝ) : Prop where
  size : y.size = n
  /-- a particle is handed numbers until their product is not above the limit; it is one less than their number -/
  first : ∀ i < n, ∃ k, IsLeast {k | 1 ≤ k ∧ ((numbersFor i passes).take k).prod ≤ limit} k ∧
    (numbersFor i passes).length = k ∧ y.particle i = (k : ℝ) - 1
  /-- once it has stopped no pass changes it -/
  rests : ∀ (i k m : Nat) (p : Counting ℝ), k ≤ m →
    (Counting.after limit (List.replicate n .start) (passes.take k))[i]? = some p → p.active = false →
    (Counting.after limit (List.replicate n .start) (passes.take m))[i]? = some p

theorem Counting.Run.countedEach {S : Type} [RandomSource S ℝ] {s t : S} {limit : ℝ} {n : Nat}
    {passes : List (List (Option ℝ))} {counted : List (Counting ℝ)}
    {y : Sample ℝ} (h : Run limit (List.replicate n .start) s passes counted t)
    (hy : counted.map (fun p => Scalar.ofInt ((p.count : Int) - 1)) = y.toList) :
    CountedEach limit n passes y := by
  have hsteps := h.steps
  have hafter := h.after_eq
  have hresting : ∀ p ∈ List.replicate n (start : Counting ℝ), p.Resting limit :=
    fun p hp => List.eq_of_mem_replicate hp ▸ resting_start
  constructor
  case size =>
    rw [← Sample.length_toList, ← hy, List.length_map, ← hafter, hsteps.length_after, List.length_replicate]
  case first =>
    intro i hi
    have hi' : (List.replicate n (start : Counting ℝ))[i]? = some start := by
      rw [List.getElem?_replicate, if_pos hi]
    -- a particle counts by itself: the others only decide when a pass ends
    obtain ⟨hcounted, hneeded⟩ := hsteps.alone hi' resting_start
    rw [hafter] at hcounted
    have hstopped := List.any_eq_false.mp h.stopped _ (List.mem_of_getElem? hcounted)
    refine ⟨_, isLeast_length (Bool.eq_false_iff.mpr hstopped) hneeded, rfl, ?_⟩
    refine Sample.particle_eq_of_getElem? ?_
    rw [← hy, List.getElem?_map, hcounted, Option.map_some, Scalar.ofInt_real, alone_count]
    push_cast [start]
    rw [zero_add]
  case rests => exact fun i k m p => hsteps.rests hresting

theorem CountedEach.unique {limit : ℝ} {n : Nat} {passes : List (List (Option ℝ))} {y z : Sample ℝ}
    (hy : CountedEach limit n passes y) (hz : CountedEach limit n passes z) : y = z := by
  refine Sample.ext_particle (hy.size.trans hz.size.symm) fun i hi => ?_
  obtain ⟨_, -, rfl, hyi⟩ := hy.first i (hy.size ▸ hi)
  obtain ⟨_, -, rfl, hzi⟩ := hz.first i (hy.size ▸ hi)
  rw [hyi, hzi]

/-- The sample that is counted out is the one that the passes of a run count. -/
theorem run_countedOut_eq_ok {S : Type} [RandomSource S ℝ] {s t : S} {rate : ℝ} {m : Nat} {n : SampleCount}
    {y : Sample ℝ} :
    (countedOut m rate n : Draw ℝ S (Sample ℝ)).run s = (.ok y, t) ↔
      ∃ passes counted, passes.length < m ∧
        Counting.Run (Real.exp (-rate)) (List.replicate n.size .start) s passes counted t ∧
        CountedEach (Real.exp (-rate)) n.size passes y := by
  rw [countedOut, run_bind_eq_ok]
  constructor
  · rintro ⟨counted, u, hpasses, hsample⟩
    obtain ⟨hy, rfl⟩ := run_toSample_eq_ok.mp hsample
    obtain ⟨passes, hlimit, hrun⟩ := countingPasses_run_iff.mp hpasses
    exact ⟨passes, counted, hlimit, hrun, hrun.countedEach hy⟩
  · rintro ⟨passes, counted, hlimit, hrun, heach⟩
    refine ⟨counted, t, countingPasses_run_iff.mpr ⟨passes, hlimit, hrun⟩, ?_⟩
    -- the run has a sample of its own, and there is only one that it counts
    have hlength : counted.length = n.size := by
      rw [← hrun.after_eq, hrun.steps.length_after, List.length_replicate]
    obtain ⟨p, rest, rfl⟩ := List.exists_cons_of_length_pos (hlength ▸ n.positive)
    have hy := heach.unique (hrun.countedEach (y := ⟨_, _⟩) rfl)
    exact run_toSample_eq_ok.mpr ⟨congrArg Sample.toList hy.symm, rfl⟩

/-- **Each particle is counted by its own numbers**, in the passes that all particles make together. -/
theorem poisson_counts_each {S : Type} [RandomSource S ℝ] {s t : S} {rate : ℝ} (hpos : 0 < rate)
    (hdirect : rate < 30) {limit : Nat} {frame : SampleFrame ℝ} {n : SampleCount}
    (hcount : frame.count = .ok n) {q : Quantity ℝ} :
    (poissonWithin limit rate frame : Draw ℝ S (Quantity ℝ)).run s = (.ok q, t) ↔
      ∃ passes counted y, passes.length < limit ∧
        Counting.Run (Real.exp (-rate)) (List.replicate n.size .start) s passes counted t ∧
        CountedEach (Real.exp (-rate)) n.size passes y ∧ frame.unit.apply y = .ok q := by
  have hpositive : Scalar.isPositive rate = true := by simpa using hpos
  have hsmall : Scalar.lt rate (Scalar.ofRat poissonDirectLimit) = true := by
    simpa [poissonDirectLimit] using hdirect
  rw [poissonWithin, run_bind_of_ok (run_requireFinite _ _ s), run_bind_of_ok (run_require_of_true hpositive _ s),
    run_bind_of_ok (run_resolve hcount s), if_pos hsmall, run_bind_eq_ok]
  simp only [run_countedOut_eq_ok]
  constructor
  · rintro ⟨y, u, ⟨passes, counted, hlimit, hrun, heach⟩, hfinish⟩
    obtain ⟨hq, rfl⟩ := Prod.mk.inj hfinish
    exact ⟨passes, counted, y, hlimit, hrun, heach, hq⟩
  · rintro ⟨passes, counted, y, hlimit, hrun, heach, hq⟩
    exact ⟨y, t, ⟨passes, counted, hlimit, hrun, heach⟩, run_ofExcept_of_ok hq t⟩

/-- Two particles, of which the first stops a pass earlier. -/
theorem poisson_counts_two :
    0 < Real.log 2 ∧ Real.log 2 < 30 ∧
      (poissonWithin 3 (Real.log 2) (.plain (.ok ⟨2, by decide⟩)) : Draw ℝ (ScriptedSource ℝ) (Quantity ℝ)).run
        ⟨[1 / 4, 3 / 4, 1 / 2], []⟩ = (.ok ⟨.sample ⟨0, [1]⟩, .one⟩, ⟨[], []⟩) := by
  have hpos : 0 < Real.log 2 := Real.log_pos one_lt_two
  have hdirect : Real.log 2 < 30 := (Real.log_le_sub_one_of_pos two_pos).trans_lt (by norm_num)
  refine ⟨hpos, hdirect, (poisson_counts_each hpos hdirect rfl).mpr ?_⟩
  have hlimit : Real.exp (-Real.log 2) = 1 / 2 := by
    rw [Real.exp_neg, Real.exp_log two_pos, one_div]
  rw [hlimit]
  have hfirst : stepAll (1 / 2 : ℝ) (List.replicate 2 .start) [some (1 / 4), some (3 / 4)] =
      [⟨1 / 4, 1, false⟩, ⟨3 / 4, 1, true⟩] := by
    norm_num [stepAll, Counting.start, Counting.step, Counting.recheck, List.replicate]
  have hsecond : stepAll (1 / 2 : ℝ) [⟨1 / 4, 1, false⟩, ⟨3 / 4, 1, true⟩] [none, some (1 / 2)] =
      [⟨1 / 4, 1, false⟩, ⟨3 / 8, 2, false⟩] := by
    norm_num [stepAll, Counting.step, Counting.recheck]
  have hrun : Counting.Run (1 / 2 : ℝ) (List.replicate 2 .start)
      (⟨[1 / 4, 3 / 4, 1 / 2], []⟩ : ScriptedSource ℝ) [[some (1 / 4), some (3 / 4)], [none, some (1 / 2)]]
      [⟨1 / 4, 1, false⟩, ⟨3 / 8, 2, false⟩] ⟨[], []⟩ := by
    refine .pass rfl rfl rfl ?_
    rw [hfirst]
    refine .pass rfl rfl rfl ?_
    rw [hsecond]
    exact .stop rfl
  refine ⟨_, _, ⟨0, [1]⟩, by decide, hrun, hrun.countedEach ?_, rfl⟩
  norm_num [Sample.toList]

end Ballpark.Sampler
