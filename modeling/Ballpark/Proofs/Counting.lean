import Ballpark.Random.Count

/-!
# Counting particles together

The Poisson sampler counts all its particles in the same passes. A pass hands one number to each active
particle, in order (`handed_handOut`, `filterMap_handOut`), steps those that were handed one and then
looks at every product again. What becomes of a particle depends on itself and its own numbers alone
(`getElem?_stepAll`): one that is not active any more stays as it is, because its product is not above the
limit (`Counting.Resting.move_none`).
-/

namespace Ballpark.Sampler

variable {R : Type} {particles : List (Counting R)} {i : Nat}

/-! ## Handing numbers out -/

theorem length_handOut (particles : List (Counting R)) (u : List R) :
    (handOut particles u).length = particles.length := by
  induction particles generalizing u with
  | nil => rfl
  | cons p rest ih =>
    rw [handOut]
    split <;> exact congrArg (· + 1) (ih _)

/-- Exactly the active particles are handed a number. -/
def Handed (particles : List (Counting R)) (handed : List (Option R)) : Prop :=
  handed.map Option.isSome = particles.map (·.active)

/-- So it is if there are as many numbers as active particles. -/
theorem handed_handOut {u : List R} (hu : u.length = particles.countP (·.active)) :
    Handed particles (handOut particles u) := by
  induction particles generalizing u with
  | nil => rfl
  | cons p rest ih =>
    rw [List.countP_cons] at hu
    rw [handOut]
    by_cases hp : p.active = true
    · rw [if_pos hp] at hu ⊢
      obtain ⟨x, u, rfl⟩ := List.exists_cons_of_length_eq_add_one hu
      rw [Handed, List.map_cons, List.map_cons, hp]
      exact congrArg (true :: ·) (ih (Nat.succ.inj hu))
    · rw [if_neg hp] at hu ⊢
      rw [Handed, List.map_cons, List.map_cons, Bool.eq_false_iff.mpr hp]
      exact congrArg (false :: ·) (ih hu)

/-- They get them in order, and all of them are handed out. -/
theorem filterMap_handOut {u : List R} (hu : u.length = particles.countP (·.active)) :
    (handOut particles u).filterMap id = u := by
  induction particles generalizing u with
  | nil => exact (List.eq_nil_of_length_eq_zero hu).symm
  | cons p rest ih =>
    rw [List.countP_cons] at hu
    rw [handOut]
    by_cases hp : p.active = true
    · rw [if_pos hp] at hu ⊢
      obtain ⟨x, u, rfl⟩ := List.exists_cons_of_length_eq_add_one hu
      exact congrArg (x :: ·) (ih (Nat.succ.inj hu))
    · rw [if_neg hp] at hu ⊢
      exact ih hu

/-- There is one way only to hand numbers out in order. -/
theorem Handed.handOut_eq {handed : List (Option R)} (h : Handed particles handed) :
    handOut particles (handed.filterMap id) = handed := by
  induction particles generalizing handed with
  | nil => exact (List.map_eq_nil_iff.mp h).symm
  | cons p rest ih =>
    obtain ⟨u?, handed, rfl, hp, hrest⟩ := List.map_eq_cons_iff.mp h
    have hactive : p.active = u?.isSome := hp.symm
    rw [handOut, hactive]
    rcases u? with _ | x
    · exact congrArg (none :: ·) (ih hrest)
    · exact congrArg (some x :: ·) (ih hrest)

theorem Handed.length_eq {handed : List (Option R)} (h : Handed particles handed) :
    handed.length = particles.length := by
  simpa using congrArg List.length h

/-- The number that a particle is handed. -/
def handed? (handed : List (Option R)) (i : Nat) : Option R :=
  handed[i]?.join

theorem Handed.isSome_handed? {handed : List (Option R)} (h : Handed particles handed) {p : Counting R}
    (hp : particles[i]? = some p) : (Sampler.handed? handed i).isSome = p.active := by
  have hmap : (handed.map Option.isSome)[i]? = some p.active := by
    rw [h, List.getElem?_map, hp]
    rfl
  rw [List.getElem?_map] at hmap
  obtain ⟨o, ho, hactive⟩ := Option.map_eq_some_iff.mp hmap
  rw [Sampler.handed?, ho]
  exact hactive

/-! ## Steps -/

variable [Scalar R] {limit : R}

/-- What a pass makes of a particle: a step if it is handed a number, and a new look at its product. -/
def Counting.move (limit : R) (p : Counting R) (u? : Option R) : Counting R :=
  (u?.elim p p.step).recheck limit

theorem length_stepAll (limit : R) {handed : List (Option R)} (h : handed.length = particles.length) :
    (stepAll limit particles handed).length = particles.length := by
  rw [stepAll, List.length_map, List.length_zipWith, h, Nat.min_self]

/-- **Each particle is moved by its own number alone.** -/
theorem getElem?_stepAll {handed : List (Option R)} (h : handed.length = particles.length) (i : Nat) :
    (stepAll limit particles handed)[i]? = particles[i]?.map (·.move limit (handed? handed i)) := by
  rw [stepAll, List.getElem?_map, List.getElem?_zipWith, handed?]
  rcases hp : particles[i]? with _ | p
  · rfl
  · have hi : i < handed.length := h ▸ (List.getElem?_eq_some_iff.mp hp).1
    rw [List.getElem?_eq_getElem hi]
    rfl

namespace Counting

/-- A particle that is not active has a product that is not above the limit. -/
def Resting (limit : R) (p : Counting R) : Prop :=
  p.active = false → Scalar.lt limit p.product = false

theorem resting_start : (start : Counting R).Resting limit :=
  fun h => Bool.noConfusion h

theorem Resting.move (limit : R) (p : Counting R) (u? : Option R) : (p.move limit u?).Resting limit :=
  id

/-- So another look at its product leaves it as it is. -/
theorem Resting.move_none {p : Counting R} (h : p.Resting limit) (hp : p.active = false) :
    p.move limit none = p := by
  rw [Counting.move, Option.elim_none, recheck, h hp, ← hp]

end Counting

end Ballpark.Sampler
