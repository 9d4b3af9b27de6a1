import Ballpark.Sample
import Mathlib.Order.Lattice
import Mathlib.Order.Nat

/-!
# Particles by their place

The particle of a sample at a place is counted cyclically: behind the last particle the first comes
again. Stretching a sample does not change which particle stands at a place, and samples that are
combined are combined place by place (`Sample.particle_zipWith`, `Value.particle_zipWith`), whatever
their lengths.
-/

namespace Ballpark

namespace Sample

variable {R T V W : Type}

/-- The particle at a place, counted cyclically. -/
def particle (s : Sample R) (i : Nat) : R :=
  s.toList.getD (i % s.size) s.head

theorem length_toList (s : Sample R) : s.toList.length = s.size := rfl

theorem size_pos (s : Sample R) : 0 < s.size :=
  Nat.succ_pos _

theorem particle_add_size (s : Sample R) (i : Nat) : s.particle (s.size + i) = s.particle i := by
  rw [particle, particle, Nat.add_mod_left]

theorem particle_zero (s : Sample R) : s.particle 0 = s.head := by
  rw [particle, Nat.zero_mod]
  rfl

theorem getElem?_toList (s : Sample R) {i : Nat} (h : i < s.size) :
    s.toList[i]? = some (s.particle i) := by
  have hlength : i < s.toList.length := h
  rw [particle, Nat.mod_eq_of_lt h, List.getD_eq_getElem?_getD, List.getElem?_eq_getElem hlength]
  rfl

theorem particle_eq_of_getElem? {s : Sample R} {i : Nat} {x : R} (h : s.toList[i]? = some x) :
    s.particle i = x := by
  have hlt : i < s.size := (List.getElem?_eq_some_iff.mp h).1
  rw [s.getElem?_toList hlt] at h
  exact Option.some.inj h

/-- A sample is its size and its particles. -/
theorem ext_particle {s t : Sample R} (hsize : s.size = t.size)
    (h : ∀ i < s.size, s.particle i = t.particle i) : s = t := by
  have hlist : s.toList = t.toList := by
    refine List.ext_getElem? fun i => ?_
    rcases Nat.lt_or_ge i s.size with hi | hi
    · rw [s.getElem?_toList hi, t.getElem?_toList (hsize ▸ hi)]
      exact congrArg some (h i hi)
    · have hi' : t.size ≤ i := hsize ▸ hi
      rw [List.getElem?_eq_none hi, List.getElem?_eq_none hi']
  cases s
  cases t
  obtain ⟨rfl, rfl⟩ := List.cons.inj hlist
  rfl

theorem particle_mem (s : Sample R) (i : Nat) : s.particle i ∈ s.toList := by
  have hplace := s.getElem?_toList (Nat.mod_lt i s.size_pos)
  have hcyclic : s.particle (i % s.size) = s.particle i := by
    rw [particle, particle, Nat.mod_mod]
  exact hcyclic ▸ List.mem_of_getElem? hplace

@[simp] theorem particle_single (x : R) (i : Nat) : (single x).particle i = x := by
  have hmod : i % 1 = 0 := Nat.mod_one i
  simp [particle, single, size, toList, hmod]

@[simp] theorem size_single (x : R) : (single x).size = 1 := rfl

@[simp] theorem size_map (f : R → T) (s : Sample R) : (s.map f).size = s.size := by
  simp [map, size]

@[simp] theorem particle_map (f : R → T) (s : Sample R) (i : Nat) :
    (s.map f).particle i = f (s.particle i) := by
  have hlist : (s.map f).toList = s.toList.map f := rfl
  rw [particle, particle, size_map, hlist, List.getD_eq_getElem?_getD, List.getD_eq_getElem?_getD,
    List.getElem?_map]
  rcases s.toList[i % s.size]? with _ | x
  · rfl
  · rfl

/-! ## Stretching -/

/-- From the place `k` on, the next particles are those at the places behind `k`. -/
theorem getElem?_cycleFrom (s : Sample R) {n k j : Nat} {xs : List R} (hk : k ≤ s.size)
    (hxs : xs = s.toList.drop k) (hj : j < n) :
    (s.cycleFrom n xs)[j]? = some (s.particle (k + j)) := by
  induction n generalizing k j xs with
  | zero => exact absurd hj (Nat.not_lt_zero j)
  | succ n ih =>
    rcases xs with _ | ⟨x, xs⟩
    · -- behind the last particle: the first comes again
      have hend : k = s.size := by
        have hlength := congrArg List.length hxs
        rw [List.length_nil, List.length_drop, length_toList] at hlength
        omega
      rw [cycleFrom]
      rcases j with _ | j
      · rw [List.getElem?_cons_zero, hend, particle_add_size, particle_zero]
      · have htail : s.tail = s.toList.drop 1 := rfl
        rw [List.getElem?_cons_succ, ih s.size_pos htail (Nat.lt_of_succ_lt_succ hj), hend,
          particle_add_size, Nat.add_comm 1 j]
    · have hk' : k < s.size := by
        by_contra hge
        rw [List.drop_eq_nil_of_le (by rw [length_toList]; omega)] at hxs
        cases hxs
      have hdrop : s.toList.drop k = s.particle k :: s.toList.drop (k + 1) := by
        rw [List.drop_eq_getElem?_toList_append, s.getElem?_toList hk']
        rfl
      rw [hdrop] at hxs
      cases hxs
      rw [cycleFrom]
      rcases j with _ | j
      · rw [List.getElem?_cons_zero, Nat.add_zero]
      · rw [List.getElem?_cons_succ, ih hk' rfl (Nat.lt_of_succ_lt_succ hj)]
        congr 2
        omega

theorem length_cycleFrom (s : Sample R) (n : Nat) (xs : List R) : (s.cycleFrom n xs).length = n := by
  induction n generalizing xs with
  | zero => rfl
  | succ n ih =>
    rcases xs with _ | ⟨x, xs⟩
    · simp [cycleFrom, ih]
    · simp [cycleFrom, ih]

theorem size_cycle (s : Sample R) {n : Nat} (h : 0 < n) : (s.cycle n).size = n := by
  simp only [cycle, size, length_cycleFrom]
  omega

theorem getElem?_cycle (s : Sample R) {n i : Nat} (h : i < n) :
    (s.cycle n).toList[i]? = some (s.particle i) := by
  rcases i with _ | i
  · rw [particle_zero]
    rfl
  · have htail : s.tail = s.toList.drop 1 := rfl
    rw [Nat.add_comm i 1, ← s.getElem?_cycleFrom s.size_pos htail (by omega : i < n - 1)]
    rw [Nat.add_comm 1 i]
    rfl

/-- Stretching keeps the particle at each place. -/
theorem particle_cycle (s : Sample R) {n i : Nat} (h : i < n) :
    (s.cycle n).particle i = s.particle i :=
  particle_eq_of_getElem? (s.getElem?_cycle h)

/-! ## Combining -/

theorem toList_zipWith (f : R → T → V) (a : Sample R) (b : Sample T) :
    (a.zipWith f b).toList =
      List.zipWith f (a.cycle (Max.max a.size b.size)).toList
        (b.cycle (Max.max a.size b.size)).toList := rfl

@[simp] theorem size_zipWith (f : R → T → V) (a : Sample R) (b : Sample T) :
    (a.zipWith f b).size = Max.max a.size b.size := by
  have hpos : 0 < Max.max a.size b.size := lt_of_lt_of_le a.size_pos (le_max_left _ _)
  rw [← length_toList, toList_zipWith, List.length_zipWith, length_toList, length_toList,
    a.size_cycle hpos, b.size_cycle hpos, Nat.min_self]

/-- **Samples are combined place by place**, the shorter one starting again. -/
theorem particle_zipWith (f : R → T → V) (a : Sample R) (b : Sample T) {i : Nat}
    (h : i < Max.max a.size b.size) :
    (a.zipWith f b).particle i = f (a.particle i) (b.particle i) := by
  refine particle_eq_of_getElem? ?_
  rw [toList_zipWith, List.getElem?_zipWith, a.getElem?_cycle h, b.getElem?_cycle h]

/-- Samples of one size are combined into the sample that has the combined particles. -/
theorem zipWith_eq_iff {f : R → T → V} {a : Sample R} {b : Sample T} {c : Sample V} {n : Nat}
    (ha : a.size = n) (hb : b.size = n) :
    a.zipWith f b = c ↔ c.size = n ∧ ∀ i < n, c.particle i = f (a.particle i) (b.particle i) := by
  have hmax : Max.max a.size b.size = n := by rw [ha, hb, Nat.max_self]
  have hsize : (a.zipWith f b).size = n := (size_zipWith f a b).trans hmax
  have hparticle : ∀ i < n, (a.zipWith f b).particle i = f (a.particle i) (b.particle i) :=
    fun i hi => particle_zipWith f a b (hmax ▸ hi)
  constructor
  · rintro rfl
    exact ⟨hsize, hparticle⟩
  · rintro ⟨hc, h⟩
    refine ext_particle (hsize.trans hc.symm) fun i hi => ?_
    rw [hparticle i (hsize ▸ hi), h i (hsize ▸ hi)]

@[simp] theorem size_zipWith3 (f : R → T → V → W) (a : Sample R) (b : Sample T) (c : Sample V) :
    (a.zipWith3 f b c).size = Max.max a.size (Max.max b.size c.size) := by
  have hpos : 0 < Max.max a.size (Max.max b.size c.size) :=
    lt_of_lt_of_le a.size_pos (le_max_left _ _)
  rw [zipWith3, size_zipWith, size_zipWith, a.size_cycle hpos, b.size_cycle hpos, c.size_cycle hpos,
    max_self, max_self]

theorem particle_zipWith3 (f : R → T → V → W) (a : Sample R) (b : Sample T) (c : Sample V) {i : Nat}
    (h : i < Max.max a.size (Max.max b.size c.size)) :
    (a.zipWith3 f b c).particle i = f (a.particle i) (b.particle i) (c.particle i) := by
  have hpos : 0 < Max.max a.size (Max.max b.size c.size) :=
    lt_of_lt_of_le a.size_pos (le_max_left _ _)
  have hinner : i < Max.max (a.cycle (Max.max a.size (Max.max b.size c.size))).size
      (b.cycle (Max.max a.size (Max.max b.size c.size))).size := by
    rw [a.size_cycle hpos, b.size_cycle hpos, max_self]
    exact h
  rw [zipWith3, particle_zipWith, particle_zipWith _ _ _ hinner, a.particle_cycle h,
    b.particle_cycle h, c.particle_cycle h]
  rw [size_zipWith, a.size_cycle hpos, b.size_cycle hpos, c.size_cycle hpos, max_self, max_self]
  exact h

end Sample

namespace Value

variable {R T V W : Type}

/-- The particle of a value at a place; an exact value has it at every place. -/
def particle (v : Value R) (i : Nat) : R :=
  v.particles.particle i

/-- The number of particles. -/
def size (v : Value R) : Nat :=
  v.particles.size

@[simp] theorem particle_scalar (x : R) (i : Nat) : (scalar x).particle i = x :=
  Sample.particle_single x i

@[simp] theorem size_scalar (x : R) : (scalar x).size = 1 := rfl

@[simp] theorem particle_map (f : R → T) (v : Value R) (i : Nat) :
    (v.map f).particle i = f (v.particle i) := by
  cases v with
  | scalar x => simp [map]
  | sample s => exact s.particle_map f i

@[simp] theorem size_map (f : R → T) (v : Value R) : (v.map f).size = v.size := by
  cases v with
  | scalar x => rfl
  | sample s => exact s.size_map f

@[simp] theorem isScalar_map (f : R → T) (v : Value R) : (v.map f).isScalar = v.isScalar := by
  cases v <;> rfl

theorem map_map (f : R → T) (g : T → V) (v : Value R) :
    (v.map f).map g = v.map (g ∘ f) := by
  cases v with
  | scalar x => rfl
  | sample s => simp [map, Sample.map]

theorem map_id (v : Value R) : v.map id = v := by
  cases v with
  | scalar x => rfl
  | sample s => simp [map, Sample.map]

/-- A value is mapped particle by particle, so only the particles count. -/
theorem map_congr {f g : R → T} {v : Value R} (h : ∀ i, f (v.particle i) = g (v.particle i)) :
    v.map f = v.map g := by
  cases v with
  | scalar x => exact congrArg scalar (by simpa using h 0)
  | sample s =>
    have hlist : ∀ x ∈ s.toList, f x = g x := by
      intro x hx
      obtain ⟨i, hi⟩ := List.mem_iff_getElem?.mp hx
      have hplace : (sample s).particle i = x := Sample.particle_eq_of_getElem? hi
      exact hplace ▸ h i
    obtain ⟨hhead, htail⟩ := List.forall_mem_cons.mp hlist
    rw [map, map, Sample.map, Sample.map, hhead, List.map_congr_left htail]

theorem size_pos (v : Value R) : 0 < v.size :=
  v.particles.size_pos

theorem size_of_isScalar {v : Value R} (h : v.isScalar = true) : v.size = 1 := by
  cases v with
  | scalar x => rfl
  | sample s => cases h

@[simp] theorem isScalar_zipWith (f : R → T → V) (a : Value R) (b : Value T) :
    (a.zipWith f b).isScalar = (a.isScalar && b.isScalar) := by
  cases a <;> cases b <;> rfl

@[simp] theorem size_zipWith (f : R → T → V) (a : Value R) (b : Value T) :
    (a.zipWith f b).size = max a.size b.size := by
  rcases a with x | s <;> rcases b with y | t
  · rfl
  all_goals exact Sample.size_zipWith f _ _

/-- **Values are combined place by place.** -/
theorem particle_zipWith (f : R → T → V) (a : Value R) (b : Value T) {i : Nat}
    (h : i < max a.size b.size) : (a.zipWith f b).particle i = f (a.particle i) (b.particle i) := by
  rcases a with x | s <;> rcases b with y | t
  · simp [zipWith]
  all_goals exact Sample.particle_zipWith f _ _ h

/-- An exact value meets every particle. -/
theorem scalar_zipWith (f : R → T → V) (x : R) (v : Value T) : (scalar x).zipWith f v = v.map (f x) := by
  rcases v with y | s
  · rfl
  · refine congrArg sample (Sample.ext_particle ?_ fun i hi => ?_)
    · simp [particles, Nat.succ_le_iff, s.size_pos]
    · rw [Sample.size_zipWith] at hi
      rw [Sample.particle_zipWith _ _ _ hi, Sample.particle_map]
      exact congrArg (f · _) (Sample.particle_single x i)

@[simp] theorem isScalar_zipWith3 (f : R → T → V → W) (a : Value R) (b : Value T) (c : Value V) :
    (a.zipWith3 f b c).isScalar = (a.isScalar && b.isScalar && c.isScalar) := by
  cases a <;> cases b <;> cases c <;> rfl

@[simp] theorem size_zipWith3 (f : R → T → V → W) (a : Value R) (b : Value T) (c : Value V) :
    (a.zipWith3 f b c).size = max a.size (max b.size c.size) := by
  rcases a with x | s <;> rcases b with y | t <;> rcases c with z | u
  · rfl
  all_goals exact Sample.size_zipWith3 f _ _ _

theorem particle_zipWith3 (f : R → T → V → W) (a : Value R) (b : Value T) (c : Value V) {i : Nat}
    (h : i < max a.size (max b.size c.size)) :
    (a.zipWith3 f b c).particle i = f (a.particle i) (b.particle i) (c.particle i) := by
  rcases a with x | s <;> rcases b with y | t <;> rcases c with z | u
  · simp [zipWith3]
  all_goals exact Sample.particle_zipWith3 f _ _ _ h

end Value

end Ballpark
