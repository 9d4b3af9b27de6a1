import Ballpark.Proofs.GammaSqueeze
import Ballpark.Proofs.SamplerSize

/-!
# The passes of the gamma sampler

The gamma sampler draws for all pending places at once, pass by pass, and no place knows in which pass it
will be filled. A run is recorded with its passes (`Filling.Run`), each with the indices that it found pending
and the numbers that it drew for them; the sampler succeeds exactly if there is such a run within its limit
(`gammaPasses_run_iff`). What the passes do to the places does not depend on the source any more: whatever
they write was pending before and is not pending afterwards (`Filling.Passes.written_perm`), and a place
stays empty until a candidate that is drawn for it is accepted (`Filling.Passes.first_accepted`). So every
place is filled once (`FilledOnce`), and this is all that the sampler does
(`standardGamma_fills_once`).
-/

namespace Ballpark.Sampler

open Evaluation

variable {R S : Type} [Scalar R]

/-! ## Passes as they were made -/

namespace GammaShape

variable {g : GammaShape R} {x u : R}

/-- A candidate is accepted if its cube is above zero and it passes the squeeze or the logarithmic test. -/
def Accepts (g : GammaShape R) (x u : R) : Prop :=
  Scalar.isPositive (g.cube x) = true ∧
    (squeezeAccepts x u = true ∨ g.logAccepts x (g.cube x) u = true)

theorem candidate_of_accepts (h : g.Accepts x u) : g.candidate x u = some (g.d * g.cube x) := by
  rw [candidate, if_pos]
  rw [Bool.and_eq_true, Bool.or_eq_true]
  exact h

theorem candidate_of_not_accepts (h : ¬g.Accepts x u) : g.candidate x u = none := by
  rw [candidate, if_neg]
  rw [Bool.and_eq_true, Bool.or_eq_true]
  exact h

end GammaShape

/-- A pass of the gamma sampler: the indices that were pending, and the normal and the uniform number that
was drawn for each. -/
structure GammaPass (R : Type) where
  pending : List Nat
  drawn : List (R × R)

namespace GammaPass

/-- The numbers that the pass drew for an index. -/
def drawnFor? (p : GammaPass R) (i : Nat) : Option (R × R) :=
  (p.pending.zip p.drawn).lookup i

/-- All that some passes drew for an index. -/
def drawsFor (i : Nat) (ps : List (GammaPass R)) : List (R × R) :=
  ps.filterMap (·.drawnFor? i)

/-- The candidates of the pass, in the order of their indices. -/
def candidates (g : GammaShape R) (p : GammaPass R) : List (Option R) :=
  p.drawn.map fun d => g.candidate d.1 d.2

/-- What the pass writes, each number with its index. -/
def written (g : GammaShape R) (p : GammaPass R) : List (Nat × R) :=
  Filling.accepted p.pending (p.candidates g)

/-- The pass found the pending indices of a filling, and drew for each of them. -/
structure On (f : Filling R) (p : GammaPass R) : Prop where
  pending : p.pending = f.pending
  length : p.drawn.length = p.pending.length

variable {f : Filling R} {p : GammaPass R} {g : GammaShape R} {i n : Nat}

theorem On.length_candidates (h : p.On f) : (p.candidates g).length = f.pending.length := by
  rw [candidates, List.length_map, h.length, h.pending]

omit [Scalar R] in
theorem mem_of_drawnFor? {d : R × R} (h : p.drawnFor? i = some d) : (i, d) ∈ p.pending.zip p.drawn := by
  obtain ⟨l, r, hzip, -⟩ := List.lookup_eq_some_iff.mp h
  rw [hzip]
  exact List.mem_append_right _ List.mem_cons_self

omit [Scalar R] in
theorem drawsFor_cons_none (ps : List (GammaPass R)) (h : p.drawnFor? i = none) :
    drawsFor i (p :: ps) = drawsFor i ps :=
  List.filterMap_cons_none h

omit [Scalar R] in
theorem drawsFor_cons_some (ps : List (GammaPass R)) {d : R × R} (h : p.drawnFor? i = some d) :
    drawsFor i (p :: ps) = d :: drawsFor i ps :=
  List.filterMap_cons_some h

omit [Scalar R] in
/-- It drew nothing for other indices. -/
theorem On.drawnFor?_eq_none_iff (h : p.On f) : p.drawnFor? i = none ↔ i ∉ f.pending := by
  have hfst : (p.pending.zip p.drawn).map Prod.fst = f.pending :=
    (List.map_fst_zip (Nat.le_of_eq h.length.symm)).trans h.pending
  rw [drawnFor?, List.lookup_eq_none_iff, ← hfst, List.mem_map]
  simp only [bne_iff_ne, ne_eq, not_exists, not_and, eq_comm (a := i)]

omit [Scalar R] in
/-- Where the pending indices are different ones, the numbers that stand beside an index are its own. -/
theorem On.drawnFor?_eq_some_iff (h : p.On f) (hf : f.Sound n) {d : R × R} :
    p.drawnFor? i = some d ↔ (i, d) ∈ p.pending.zip p.drawn := by
  refine ⟨mem_of_drawnFor?, fun hmem => ?_⟩
  have hfst : (p.pending.zip p.drawn).map Prod.fst = f.pending :=
    (List.map_fst_zip (Nat.le_of_eq h.length.symm)).trans h.pending
  have hnodup : ((p.pending.zip p.drawn).map Prod.fst).Nodup := hfst ▸ hf.increasing.imp Nat.ne_of_lt
  have hi : i ∈ f.pending := hfst ▸ List.mem_map_of_mem hmem
  obtain ⟨d', hd'⟩ := Option.ne_none_iff_exists'.mp (mt h.drawnFor?_eq_none_iff.mp (not_not.mpr hi))
  have hpair := List.inj_on_of_nodup_map hnodup (mem_of_drawnFor? hd') hmem rfl
  rw [hd', (Prod.mk.inj hpair).2]

/-- The candidate of an index is the one that its own numbers give. -/
theorem On.mem_candidates (h : p.On f) (hf : f.Sound n) {c : Option R} :
    (i, c) ∈ f.pending.zip (p.candidates g) ↔ ∃ d, p.drawnFor? i = some d ∧ g.candidate d.1 d.2 = c := by
  rw [← h.pending, candidates, List.zip_map_right, List.mem_map]
  simp only [h.drawnFor?_eq_some_iff hf, Prod.exists, Prod.map_apply, Prod.mk.injEq, id]
  constructor
  · rintro ⟨_, x, u, hmem, rfl, hc⟩
    exact ⟨x, u, hmem, hc⟩
  · rintro ⟨x, u, hmem, hc⟩
    exact ⟨i, x, u, hmem, rfl, hc⟩

/-- An accepted candidate is written to its place. -/
theorem On.place_of_accepts (h : p.On f) (hf : f.Sound n) {x u : R} (hd : p.drawnFor? i = some (x, u))
    (haccepts : g.Accepts x u) :
    (f.fill (p.candidates g)).places[i]? = some (some (g.d * g.cube x)) :=
  hf.getElem?_fill_of_accepted h.length_candidates
    ((h.mem_candidates hf).mpr ⟨(x, u), hd, GammaShape.candidate_of_accepts haccepts⟩)

/-- Where nothing was drawn, or nothing that is accepted, the place stays as it is. -/
theorem On.place_of_not_accepts (h : p.On f) (hf : f.Sound n)
    (hd : ∀ d, p.drawnFor? i = some d → ¬g.Accepts d.1 d.2) :
    (f.fill (p.candidates g)).places[i]? = f.places[i]? := by
  refine Filling.getElem?_fill_of_not_accepted fun y hy => ?_
  obtain ⟨d, hdrawn, hcandidate⟩ := (h.mem_candidates hf).mp hy
  rw [GammaShape.candidate_of_not_accepts (hd d hdrawn)] at hcandidate
  cases hcandidate

theorem On.sound (h : p.On f) (hf : f.Sound n) : (f.fill (p.candidates g)).Sound n :=
  hf.fill h.length_candidates

/-- What the pass writes and what it leaves pending are together what was pending. -/
theorem On.written_perm (h : p.On f) :
    ((p.written g).map Prod.fst ++ (f.fill (p.candidates g)).pending).Perm f.pending := by
  rw [written, h.pending]
  exact Filling.accepted_rejected_perm h.length_candidates

end GammaPass

namespace Filling

variable {g : GammaShape R} {f full : Filling R} {ps : List (GammaPass R)} {i n : Nat}

/-- The places after some passes. -/
def after (g : GammaShape R) (f : Filling R) (ps : List (GammaPass R)) : Filling R :=
  ps.foldl (fun f p => f.fill (p.candidates g)) f

/-- Passes that can be made one after the other. -/
def Passes (g : GammaShape R) : Filling R → List (GammaPass R) → Prop
  | _, [] => True
  | f, p :: ps => p.On f ∧ Passes g (f.fill (p.candidates g)) ps

/-- What holds of the earlier passes does not depend on the later ones. -/
theorem Passes.take (h : f.Passes g ps) (k : Nat) : f.Passes g (ps.take k) := by
  induction ps generalizing f k with
  | nil => simpa using h
  | cons p ps ih =>
    cases k with
    | zero => exact True.intro
    | succ k => exact ⟨h.1, ih h.2 k⟩

theorem Passes.on_getElem? (h : f.Passes g ps) {k : Nat} {p : GammaPass R} (hp : ps[k]? = some p) :
    p.On (f.after g (ps.take k)) := by
  induction ps generalizing f k with
  | nil => cases hp
  | cons q ps ih =>
    cases k with
    | zero =>
      cases hp
      exact h.1
    | succ k => exact ih h.2 hp

theorem Passes.sound (h : f.Passes g ps) (hf : f.Sound n) : (f.after g ps).Sound n := by
  induction ps generalizing f with
  | nil => exact hf
  | cons p ps ih => exact ih h.2 (h.1.sound hf)

/-- **What the passes write and what they leave pending** are together what was pending. -/
theorem Passes.written_perm (h : f.Passes g ps) :
    ((ps.flatMap (GammaPass.written g)).map Prod.fst ++ (f.after g ps).pending).Perm f.pending := by
  induction ps generalizing f with
  | nil => exact .refl _
  | cons p ps ih =>
    rw [List.flatMap_cons, List.map_append, List.append_assoc]
    exact ((ih h.2).append_left _).trans h.1.written_perm

/-- So an index is pending after some passes if it was before and they have not written it. -/
theorem Passes.mem_pending_iff (h : f.Passes g ps) (hf : f.Sound n) :
    i ∈ (f.after g ps).pending ↔
      i ∈ f.pending ∧ i ∉ (ps.flatMap (GammaPass.written g)).map Prod.fst := by
  have hperm := h.written_perm
  have hnodup := hperm.nodup_iff.mpr (hf.increasing.imp Nat.ne_of_lt)
  rw [← hperm.mem_iff, List.mem_append]
  constructor
  · intro hi
    exact ⟨.inr hi, fun hwritten => (List.nodup_append.mp hnodup).2.2 i hwritten i hi rfl⟩
  · rintro ⟨hi, hnot⟩
    exact hi.resolve_left hnot

/-- Nothing is drawn for an index that is not pending, and nothing written. -/
theorem Passes.of_not_mem (h : f.Passes g ps) (hf : f.Sound n) (hi : i ∉ f.pending) :
    GammaPass.drawsFor i ps = [] ∧ (f.after g ps).places[i]? = f.places[i]? := by
  induction ps generalizing f with
  | nil => exact ⟨rfl, rfl⟩
  | cons p ps ih =>
    have hnone := h.1.drawnFor?_eq_none_iff.mpr hi
    have hplace : (f.fill (p.candidates g)).places[i]? = f.places[i]? :=
      h.1.place_of_not_accepts hf fun d hd => by cases hnone.symm.trans hd
    have hnext : i ∉ (f.fill (p.candidates g)).pending := by
      rwa [(h.1.sound hf).pending_iff, hplace, ← hf.pending_iff]
    obtain ⟨hdrawn, hafter⟩ := ih h.2 (h.1.sound hf) hnext
    exact ⟨(GammaPass.drawsFor_cons_none ps hnone).trans hdrawn, hafter.trans hplace⟩

/-- **The first accepted candidate** of an index is the last one that is drawn for it, and it is what stands in
its place. -/
theorem Passes.first_accepted (h : f.Passes g ps) (hf : f.Sound n) (hdone : (f.after g ps).pending = [])
    (hi : i ∈ f.pending) :
    ∃ refused x u, GammaPass.drawsFor i ps = refused ++ [(x, u)] ∧
      (∀ d ∈ refused, ¬g.Accepts d.1 d.2) ∧ g.Accepts x u ∧
      (f.after g ps).places[i]? = some (some (g.d * g.cube x)) := by
  induction ps generalizing f with
  | nil =>
    rw [show f.pending = [] from hdone] at hi
    cases hi
  | cons p ps ih =>
    obtain ⟨⟨x, u⟩, hd⟩ :=
      Option.ne_none_iff_exists'.mp (mt h.1.drawnFor?_eq_none_iff.mp (not_not.mpr hi))
    have hnext := h.1.sound (g := g) hf
    rw [GammaPass.drawsFor_cons_some ps hd]
    -- an accepted candidate is written now and left alone by the other passes; else the index stays pending
    by_cases haccepts : g.Accepts x u
    · have hplace := h.1.place_of_accepts hf hd haccepts
      have hwritten : i ∉ (f.fill (p.candidates g)).pending := by simp [hnext.pending_iff, hplace]
      obtain ⟨hdrawn, hafter⟩ := h.2.of_not_mem hnext hwritten
      refine ⟨[], x, u, ?_, fun d hd => (List.not_mem_nil hd).elim, haccepts, hafter.trans hplace⟩
      rw [hdrawn, List.nil_append]
    · have hplace := h.1.place_of_not_accepts (i := i) (g := g) hf fun d' hd' => by
        cases hd.symm.trans hd'
        exact haccepts
      have hstill : i ∈ (f.fill (p.candidates g)).pending := by
        rwa [hnext.pending_iff, hplace, ← hf.pending_iff]
      obtain ⟨refused, x', u', hdrawn, hrefused, hlast⟩ := ih h.2 hnext hdone hstill
      refine ⟨(x, u) :: refused, x', u', by rw [hdrawn, List.cons_append], ?_, hlast⟩
      exact List.forall_mem_cons.mpr ⟨haccepts, hrefused⟩

/-! ## Runs -/

variable [RandomSource S R] {s t : S}

/-- **The passes of a run.** Each draws as many normal numbers as indices are pending, and then as many
uniform ones; the last one leaves none pending. -/
inductive Run (g : GammaShape R) : Filling R → S → List (GammaPass R) → Filling R → S → Prop
  | stop {f : Filling R} {s : S} : f.pending = [] → Run g f s [] f s
  | pass {f full : Filling R} {s s₁ s₂ t : S} {x u : List R} {ps : List (GammaPass R)} :
      f.pending ≠ [] →
      Draw.repeated RandomSource.normal f.pending.length s = (x, s₁) →
      Draw.repeated RandomSource.uniform f.pending.length s₁ = (u, s₂) →
      Run g (f.fill (GammaPass.candidates g ⟨f.pending, x.zip u⟩)) s₂ ps full t →
      Run g f s (⟨f.pending, x.zip u⟩ :: ps) full t

theorem Run.passes (h : f.Run g s ps full t) : f.Passes g ps := by
  induction h with
  | stop _ => exact True.intro
  | @pass f _ s s₁ _ _ x u _ _ hx hu _ ih =>
    have hxlength := Draw.length_repeated (RandomSource.normal (S := S)) f.pending.length s
    have hulength := Draw.length_repeated (RandomSource.uniform (S := S)) f.pending.length s₁
    rw [hx] at hxlength
    rw [hu] at hulength
    exact ⟨⟨rfl, by rw [List.length_zip, hxlength, hulength, Nat.min_self]⟩, ih⟩

/-- Where a run ends is what its passes make of where it started. -/
theorem Run.after_eq (h : f.Run g s ps full t) : f.after g ps = full := by
  induction h with
  | stop _ => rfl
  | pass _ _ _ _ ih => exact ih

theorem Run.done (h : f.Run g s ps full t) : full.pending = [] := by
  induction h with
  | stop hpending => exact hpending
  | pass _ _ _ _ ih => exact ih

end Filling

variable [RandomSource S R] {s t : S}

theorem run_gammaPass {g : GammaShape R} {f : Filling R} {s s₁ s₂ : S} {x u : List R}
    (hx : Draw.repeated RandomSource.normal f.pending.length s = (x, s₁))
    (hu : Draw.repeated RandomSource.uniform f.pending.length s₁ = (u, s₂)) :
    (gammaPass g f : Draw R S (Filling R)).run s =
      (.ok (f.fill (GammaPass.candidates g ⟨f.pending, x.zip u⟩)), s₂) := by
  have hcandidates : GammaPass.candidates g ⟨f.pending, x.zip u⟩ = List.zipWith g.candidate x u := by
    show (x.zip u).map (Function.uncurry g.candidate) = _
    exact List.map_uncurry_zip_eq_zipWith
  rw [gammaPass, run_bind_of_ok (Draw.run_normals hx), run_bind_of_ok (Draw.run_uniforms hu), hcandidates]
  rfl

/-- A run of the sampler that ends is a run of the loop, however many passes it may make. -/
theorem gammaPasses_run_iff {g : GammaShape R} {limit : Nat} {f full : Filling R} :
    (gammaPasses g limit f : Draw R S (Filling R)).run s = (.ok full, t) ↔
      ∃ ps : List (GammaPass R), ps.length < limit ∧ f.Run g s ps full t := by
  induction limit generalizing f s with
  | zero =>
    refine iff_of_false (fun h => ?_) fun ⟨ps, hps, _⟩ => Nat.not_lt_zero _ hps
    cases h
  | succ limit ih =>
    rw [gammaPasses]
    -- nothing is pending: the sampler stops, whatever its limit
    by_cases hdone : f.pending = []
    · rw [if_pos (List.isEmpty_iff.mpr hdone), run_pure]
      constructor
      · intro h
        cases h
        exact ⟨[], Nat.succ_pos _, .stop hdone⟩
      · rintro ⟨ps, -, hrun⟩
        cases hrun with
        | stop => rfl
        | pass hpending => exact absurd hdone hpending
    · -- one more pass: its draws are those of the sampler, since the source is the same
      rw [if_neg (mt List.isEmpty_iff.mp hdone)]
      rcases hx : Draw.repeated (RandomSource.normal (S := S)) f.pending.length s with ⟨x, s₁⟩
      rcases hu : Draw.repeated (RandomSource.uniform (S := S)) f.pending.length s₁ with ⟨u, s₂⟩
      rw [run_bind_of_ok (run_gammaPass hx hu), ih]
      constructor
      · rintro ⟨ps, hps, hrun⟩
        exact ⟨_ :: ps, Nat.succ_lt_succ hps, .pass hdone hx hu hrun⟩
      · rintro ⟨ps, hps, hrun⟩
        cases hrun with
        | stop hpending => exact absurd hpending hdone
        | pass _ hx' hu' hrest =>
          -- the two lists of draws come from one source
          rw [hx] at hx'
          cases hx'
          rw [hu] at hu'
          cases hu'
          exact ⟨_, Nat.lt_of_succ_lt_succ hps, hrest⟩

/-- What the passes of a run make of `n` empty places: the sample `y`. -/
structure FilledOnce (g : GammaShape R) (n : Nat) (ps : List (GammaPass R)) (y : Sample R) : Prop where
  size : y.size = n
  increasing : ∀ (k : Nat) (p : GammaPass R), ps[k]? = some p → p.pending.Pairwise (· < ·)
  /-- each pass finds the places pending that are still empty -/
  empty : ∀ (k : Nat) (p : GammaPass R), ps[k]? = some p → ∀ i,
    i ∈ p.pending ↔ ((Filling.start n).after g (ps.take k)).places[i]? = some none
  /-- which are those that no earlier pass has written -/
  unwritten : ∀ (k : Nat) (p : GammaPass R), ps[k]? = some p → ∀ i,
    i ∈ p.pending ↔ i < n ∧ i ∉ ((ps.take k).flatMap (GammaPass.written g)).map Prod.fst
  /-- all passes together write each place once -/
  once : ((ps.flatMap (GammaPass.written g)).map Prod.fst).Perm (List.range n)
  /-- nothing is drawn for a place beyond its first accepted candidate, which is its number -/
  first : ∀ i < n, ∃ refused x u, GammaPass.drawsFor i ps = refused ++ [(x, u)] ∧
    (∀ d ∈ refused, ¬g.Accepts d.1 d.2) ∧ g.Accepts x u ∧ y.particle i = g.d * g.cube x
  /-- and no place stays empty -/
  full : ((Filling.start n).after g ps).places.toList = y.toList.map some

/-- A run of less than `limit` passes that fills every place once. -/
def GammaRun (limit : Nat) (g : GammaShape R) (n : SampleCount) (s : S) (y : Sample R) (t : S) : Prop :=
  ∃ (ps : List (GammaPass R)) (full : Filling R),
    ps.length < limit ∧ (Filling.start n.size).Run g s ps full t ∧ FilledOnce g n.size ps y

theorem Filling.Run.filledOnce {g : GammaShape R} {n : Nat} {ps : List (GammaPass R)} {full : Filling R}
    {y : Sample R} (h : (Filling.start n).Run g s ps full t) (hy : full.numbers = y.toList) :
    FilledOnce g n ps y := by
  have hstart : (Filling.start n : Filling R).Sound n := Filling.sound_start n
  have hpasses := h.passes
  have hfull : full.Sound n := h.after_eq ▸ hpasses.sound hstart
  have hplaces : full.places.toList = y.toList.map some := by
    rw [← hy, hfull.map_some_numbers h.done]
  -- what is pending before a pass is what the passes before it have left
  have hfound : ∀ (k : Nat) (p : GammaPass R), ps[k]? = some p →
      p.pending = ((Filling.start n).after g (ps.take k)).pending :=
    fun k p hp => (hpasses.on_getElem? hp).pending
  constructor
  case size => rw [← Sample.length_toList, ← hy, hfull.length_numbers h.done]
  case increasing =>
    intro k p hp
    rw [hfound k p hp]
    exact ((hpasses.take k).sound hstart).increasing
  case empty =>
    intro k p hp i
    rw [hfound k p hp]
    exact ((hpasses.take k).sound hstart).pending_iff i
  case unwritten =>
    intro k p hp i
    rw [hfound k p hp, (hpasses.take k).mem_pending_iff hstart, Filling.start, List.mem_range]
  case once =>
    have hperm := hpasses.written_perm
    rwa [h.after_eq, h.done, List.append_nil] at hperm
  case first =>
    intro i hi
    obtain ⟨refused, x, u, hdraws, hrefused, haccepts, hplace⟩ :=
      hpasses.first_accepted hstart (h.after_eq ▸ h.done) (List.mem_range.mpr hi)
    refine ⟨refused, x, u, hdraws, hrefused, haccepts, Sample.particle_eq_of_getElem? ?_⟩
    rw [h.after_eq, ← Array.getElem?_toList, hplaces, List.getElem?_map] at hplace
    obtain ⟨z, hz, hsome⟩ := Option.map_eq_some_iff.mp hplace
    rw [hz, Option.some.inj hsome]
  case full => rw [h.after_eq, hplaces]

/-- Gamma numbers of a shape of at least one. -/
theorem run_gammaLarge_eq_ok {limit : Nat} {shape : R} {n : SampleCount} {y : Sample R} :
    (gammaLarge limit shape n : Draw R S (Sample R)).run s = (.ok y, t) ↔
      GammaRun limit (.of shape) n s y t := by
  rw [gammaLarge, run_bind_eq_ok]
  constructor
  · rintro ⟨full, u, hpasses, hsample⟩
    obtain ⟨hnumbers, rfl⟩ := run_toSample_eq_ok.mp hsample
    obtain ⟨ps, hlimit, hrun⟩ := gammaPasses_run_iff.mp hpasses
    exact ⟨ps, full, hlimit, hrun, hrun.filledOnce hnumbers⟩
  · rintro ⟨ps, full, hlimit, hrun, honce⟩
    refine ⟨full, t, gammaPasses_run_iff.mpr ⟨ps, hlimit, hrun⟩, run_toSample_eq_ok.mpr ⟨?_, rfl⟩⟩
    have hplaces := honce.full
    rw [hrun.after_eq] at hplaces
    rw [Filling.numbers, hplaces, List.filterMap_map]
    exact List.filterMap_some

/-- **Every place is filled once, by the first accepted candidate that is drawn for it.** Below a shape of one
the places are filled for the next shape, and then each is multiplied by a power of a uniform number. -/
theorem standardGamma_fills_once {limit : Nat} {shape : R} {n : SampleCount} {y : Sample R} :
    (standardGammaWithin limit shape n : Draw R S (Sample R)).run s = (.ok y, t) ↔
      if Scalar.lt shape (Scalar.ofNat 1) then
        ∃ (big : Sample R) (s₁ : S) (u : Sample R),
          GammaRun limit (.of (shape + Scalar.ofNat 1)) n s big s₁ ∧
          (Draw.uniformSample n : Draw R S (Sample R)).run s₁ = (.ok u, t) ∧ y.size = n.size ∧
          ∀ i < n.size, y.particle i = big.particle i * Scalar.pow (u.particle i) (Scalar.ofNat 1 / shape)
      else GammaRun limit (.of shape) n s y t := by
  -- the last step is a product, particle by particle
  have hpowers : ∀ (big : Sample R) (s₁ : S) (u : Sample R),
      GammaRun limit (.of (shape + Scalar.ofNat 1)) n s big s₁ →
      (Draw.uniformSample n : Draw R S (Sample R)).run s₁ = (.ok u, t) →
      (big.zipWith (fun y u => y * Scalar.pow u (Scalar.ofNat 1 / shape)) u = y ↔ y.size = n.size ∧
        ∀ i < n.size, y.particle i = big.particle i * Scalar.pow (u.particle i) (Scalar.ofNat 1 / shape)) := by
    rintro big s₁ u ⟨_, _, _, _, honce⟩ hu
    exact Sample.zipWith_eq_iff honce.size (uniformSample_sized n _ _ _ hu)
  rw [standardGammaWithin]
  split
  · simp only [run_bind_eq_ok, run_gammaLarge_eq_ok]
    constructor
    · rintro ⟨big, s₁, hbig, u, s₂, hu, hy⟩
      rw [run_pure] at hy
      cases hy
      exact ⟨big, s₁, u, hbig, hu, (hpowers big s₁ u hbig hu).mp rfl⟩
    · rintro ⟨big, s₁, u, hbig, hu, hy⟩
      refine ⟨big, s₁, hbig, u, t, hu, ?_⟩
      rw [run_pure, (hpowers big s₁ u hbig hu).mpr hy]
  · exact run_gammaLarge_eq_ok

/-- Two places, where the first candidate of the first one is refused. -/
theorem standardGamma_in_two_passes :
    (standardGammaWithin 3 (4 / 3) ⟨2, by decide⟩ : Draw ℝ (ScriptedSource ℝ) (Sample ℝ)).run
        ⟨[1 / 2, 1 / 2, 1 / 2], [-6, 0, 3 / 2]⟩ = (.ok ⟨27 / 8, [1]⟩, ⟨[], []⟩) := by
  have hd : (GammaShape.of (4 / 3 : ℝ)).d = 1 := by
    rw [GammaShape.of_d]
    norm_num
  have hc : (GammaShape.of (4 / 3 : ℝ)).c = 1 / 3 := by
    have hroot : √(9 * (4 / 3 - 1 / 3)) = (3 : ℝ) := by
      rw [Real.sqrt_eq_iff_eq_sq] <;> norm_num
    rw [GammaShape.of_c, hroot]
  have hcube : ∀ x, (GammaShape.of (4 / 3 : ℝ)).cube x = (1 + 1 / 3 * x) ^ 3 := by
    intro x
    rw [GammaShape.cube_real, hc]
  -- minus six goes below zero before it is cubed, so it is no candidate at all
  have hrefused : (GammaShape.of (4 / 3 : ℝ)).candidate (-6) (1 / 2) = none := by
    refine GammaShape.candidate_of_not_accepts fun h => ?_
    have hpositive := h.1
    rw [hcube, Scalar.isPositive_real, decide_eq_true_eq] at hpositive
    norm_num at hpositive
  -- half is below the quick test for all other numbers here, so the logarithm is not asked
  have haccepted : ∀ x, 0 < 1 + 1 / 3 * x → 1 / 2 < 1 - 0.0331 * x ^ 4 →
      (GammaShape.of (4 / 3 : ℝ)).candidate x (1 / 2) = some ((1 + 1 / 3 * x) ^ 3) := by
    intro x hx hquick
    rw [GammaShape.candidate_of_accepts ⟨?_, .inl ((squeezeAccepts_real x _).mpr hquick)⟩, hd, hcube, one_mul]
    rw [hcube, Scalar.isPositive_real, decide_eq_true_eq]
    positivity
  have hfirst : GammaPass.candidates (GammaShape.of (4 / 3 : ℝ)) ⟨[0, 1], [(-6, 1 / 2), (0, 1 / 2)]⟩ =
      [none, some 1] := by
    simp only [GammaPass.candidates, List.map_cons, List.map_nil, hrefused]
    rw [haccepted 0 (by norm_num) (by norm_num)]
    norm_num
  have hsecond : GammaPass.candidates (GammaShape.of (4 / 3 : ℝ)) ⟨[0], [(3 / 2, 1 / 2)]⟩ =
      [some (27 / 8)] := by
    simp only [GammaPass.candidates, List.map_cons, List.map_nil]
    rw [haccepted _ (by norm_num) (by norm_num)]
    norm_num
  rw [standardGamma_fills_once, if_neg (by norm_num)]
  -- the first pass fills the second place only, and the first place gets the draw of the next pass
  have hrun : (Filling.start 2).Run (GammaShape.of (4 / 3 : ℝ))
      (⟨[1 / 2, 1 / 2, 1 / 2], [-6, 0, 3 / 2]⟩ : ScriptedSource ℝ)
      [⟨[0, 1], [(-6, 1 / 2), (0, 1 / 2)]⟩, ⟨[0], [(3 / 2, 1 / 2)]⟩]
      ⟨#[some (27 / 8), some 1], []⟩ ⟨[], []⟩ := by
    refine .pass (List.cons_ne_nil _ _) rfl rfl ?_
    show Filling.Run _ (Filling.fill _ (GammaPass.candidates _ ⟨[0, 1], [(-6, 1 / 2), (0, 1 / 2)]⟩)) _ _ _ _
    rw [hfirst]
    refine .pass (List.cons_ne_nil _ _) rfl rfl ?_
    show Filling.Run _ (Filling.fill _ (GammaPass.candidates _ ⟨[0], [(3 / 2, 1 / 2)]⟩)) _ _ _ _
    rw [hsecond]
    exact .stop rfl
  exact ⟨_, _, by decide, hrun, hrun.filledOnce rfl⟩

end Ballpark.Sampler
