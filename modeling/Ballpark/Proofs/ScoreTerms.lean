import Mathlib.Algebra.BigOperators.Intervals
import Mathlib.Algebra.Order.BigOperators.Group.List
import Mathlib.Data.List.Sort
import Mathlib.Tactic.Linarith
import Ballpark.Proofs.Mean
import Ballpark.Proofs.QuantityArithmetic
import Ballpark.Score

/-!
# The terms of a score

The resolution and the reliability of a score are mean distances: of the particles from each other, and
of the particles from the observation. Both are computed from the sorted sample without looking at
pairs. In a sorted sample a particle is above all that stand before it, so the distances from the first
particle add up to the sum of the others less as many times the first (`Score.pairSum_cons`), which is
what the weights count; and the place that the search finds for an observation parts the particles that
are not above it from those that are (`Score.insertionPlace_parts`), so the prefix sums have every
distance with its sign (`Score.meanDistance_eq`). As neither mean depends on the order of the particles,
the terms are those of the sample as it was given (`Score.components_eq_mean_distances`).
-/

namespace Ballpark

open Finset (range)

namespace Sample

/-- A sum over the particles is one over their places. -/
theorem sum_map_toList (s : Sample ℝ) (f : ℝ → ℝ) :
    (s.toList.map f).sum = ∑ i ∈ range s.size, f (s.particle i) := by
  have hlist : s.toList = (List.range s.size).map s.particle := by
    refine List.ext_getElem? fun i => ?_
    rw [List.getElem?_map]
    by_cases hi : i < s.size
    · rw [s.getElem?_toList hi, List.getElem?_range hi]
      rfl
    · rw [List.getElem?_eq_none (by rw [length_toList]; omega),
        List.getElem?_eq_none (by rw [List.length_range]; omega)]
      rfl
  rw [hlist, List.map_map]
  rfl

theorem sorted_perm (s : Sample ℝ) : s.sorted.Perm s.toList :=
  List.mergeSort_perm _ _

theorem sorted_pairwise (s : Sample ℝ) : s.sorted.Pairwise (· ≤ ·) := by
  have htrans : ∀ a b c : ℝ, Scalar.sortsBefore a b → Scalar.sortsBefore b c → Scalar.sortsBefore a c := by
    simpa [Scalar.sortsBefore] using fun a b c => le_trans
  have htotal : ∀ a b : ℝ, (Scalar.sortsBefore a b || Scalar.sortsBefore b a) = true := by
    simpa [Scalar.sortsBefore] using fun a b => le_total a b
  refine (List.pairwise_mergeSort htrans htotal s.toList).imp fun h => ?_
  simpa [Scalar.sortsBefore] using h

end Sample

namespace Score

/-! ## Distances from each other -/

/-- The sum of the distances of numbers from each other. -/
def pairSum (xs : List ℝ) : ℝ :=
  (xs.map fun x => (xs.map fun y => |x - y|).sum).sum

theorem pairSum_perm {xs ys : List ℝ} (h : xs.Perm ys) : pairSum xs = pairSum ys := by
  have hinner : ∀ x, (xs.map fun y => |x - y|).sum = (ys.map fun y => |x - y|).sum :=
    fun x => (h.map _).sum_eq
  rw [pairSum, pairSum, funext hinner]
  exact (h.map _).sum_eq

/-- The distances of a number from numbers that are not below it. -/
theorem sum_distances_of_le {x : ℝ} {xs : List ℝ} (h : ∀ y ∈ xs, x ≤ y) :
    (xs.map fun y => |x - y|).sum = xs.sum - xs.length * x := by
  induction xs with
  | nil => simp
  | cons y rest ih =>
    obtain ⟨hy, hrest⟩ := List.forall_mem_cons.mp h
    rw [List.map_cons, List.sum_cons, ih hrest, abs_sub_comm, abs_of_nonneg (sub_nonneg.mpr hy),
      List.sum_cons, List.length_cons]
    push_cast
    ring

/-- The smallest number adds its distances from the others, each of them twice. -/
theorem pairSum_cons {x : ℝ} {xs : List ℝ} (h : ∀ y ∈ xs, x ≤ y) :
    pairSum (x :: xs) = pairSum xs + 2 * (xs.sum - xs.length * x) := by
  have hsplit : (xs.map fun a => ((x :: xs).map fun y => |a - y|).sum).sum =
      (xs.map fun a => |x - a|).sum + pairSum xs := by
    rw [pairSum, ← List.sum_map_add]
    simp only [List.map_cons, List.sum_cons, abs_sub_comm]
  rw [pairSum, List.map_cons, List.sum_cons, hsplit, List.map_cons, List.sum_cons, sub_self, abs_zero,
    zero_add, sum_distances_of_le h]
  ring

/-- One more particle in front of all adds each of the others once. -/
theorem weightedTerms_sum_succ (n i : Nat) (xs : List ℝ) :
    (weightedTerms (n + 1) (i + 1) xs).sum = (weightedTerms n i xs).sum + xs.sum := by
  induction xs generalizing i with
  | nil => simp [weightedTerms]
  | cons x rest ih =>
    simp only [weightedTerms, List.sum_cons, ih, Scalar.ofNat_real]
    push_cast
    ring

/-- **The weights count the distances**, each pair once. -/
theorem weightedTerms_sum {xs : List ℝ} (h : xs.Pairwise (· ≤ ·)) :
    2 * (weightedTerms xs.length 0 xs).sum = pairSum xs := by
  induction h with
  | nil => simp [weightedTerms, pairSum]
  | @cons x rest hle _ ih =>
    rw [pairSum_cons hle, ← ih, List.length_cons, weightedTerms, List.sum_cons,
      weightedTerms_sum_succ]
    simp only [Scalar.ofNat_real]
    push_cast
    ring

theorem meanDifference_eq {xs : List ℝ} (h : xs.Pairwise (· ≤ ·)) :
    meanDifference xs = pairSum xs / (xs.length : ℝ) ^ 2 := by
  rw [meanDifference, Scalar.total_eq_sum, ← weightedTerms_sum h]
  simp only [Scalar.ofNat_real]
  push_cast
  ring

/-! ## The place of an observation -/

/-- A place that parts what is not above a number from what is. -/
structure Parts (sorted : List ℝ) (y : ℝ) (k : Nat) : Prop where
  within : k ≤ sorted.length
  below : ∀ x ∈ sorted.take k, x ≤ y
  above : ∀ x ∈ sorted.drop k, y < x

theorem le_of_mem_take {xs : List ℝ} (h : xs.Pairwise (· ≤ ·)) {m : Nat} {x z : ℝ} (hm : xs[m]? = some x)
    (hz : z ∈ xs.take (m + 1)) : z ≤ x := by
  obtain ⟨hlt, rfl⟩ := List.getElem?_eq_some_iff.mp hm
  obtain ⟨j, hj, rfl⟩ := List.mem_take_iff_getElem.mp hz
  rcases Nat.lt_succ_iff_lt_or_eq.mp (lt_of_lt_of_le hj (min_le_left _ _)) with hjm | rfl
  · exact List.pairwise_iff_getElem.mp h j m _ hlt hjm
  · exact le_rfl

theorem le_of_mem_drop {xs : List ℝ} (h : xs.Pairwise (· ≤ ·)) {m : Nat} {x z : ℝ} (hm : xs[m]? = some x)
    (hz : z ∈ xs.drop m) : x ≤ z := by
  obtain ⟨hlt, rfl⟩ := List.getElem?_eq_some_iff.mp hm
  obtain ⟨j, hj, rfl⟩ := List.mem_drop_iff_getElem.mp hz
  rcases Nat.eq_zero_or_pos j with rfl | hpos
  · exact le_rfl
  · exact List.pairwise_iff_getElem.mp h m (m + j) hlt (by omega) (by omega)

/-- The search halves what it has not looked at; what it has passed on either side is on its side of the
number. -/
theorem insertionPlace_between {xs : List ℝ} (h : xs.Pairwise (· ≤ ·)) {y : ℝ} {low high : Nat}
    (hle : low ≤ high) (hwithin : high ≤ xs.length) (hbelow : ∀ x ∈ xs.take low, x ≤ y)
    (habove : ∀ x ∈ xs.drop high, y < x) :
    Parts xs y (insertionPlace xs.toArray y low high) := by
  induction low, high using insertionPlace.induct xs.toArray y with
  -- the middle is no more than the number, and so is all in front of it
  | case1 low high hlt middle x hx hbefore ih =>
    have hmiddle : xs[middle]? = some x := by simpa using hx
    have hxy : x ≤ y := by simpa [Scalar.sortsBefore] using hbefore
    have hplace : middle < high := by omega
    rw [insertionPlace, dif_pos hlt]
    simp only [show low + (high - low) / 2 = middle from rfl, hx, if_pos hbefore]
    refine ih (by omega) hwithin (fun z hz => ?_) habove
    exact (le_of_mem_take h hmiddle hz).trans hxy
  -- the middle is above the number, and so is all behind it
  | case2 low high hlt middle x hx hbefore ih =>
    have hmiddle : xs[middle]? = some x := by simpa using hx
    have hyx : y < x := by simpa [Scalar.sortsBefore] using hbefore
    rw [insertionPlace, dif_pos hlt]
    simp only [show low + (high - low) / 2 = middle from rfl, hx, if_neg hbefore]
    refine ih (by omega) (by omega) hbelow fun z hz => ?_
    exact hyx.trans_le (le_of_mem_drop h hmiddle hz)
  -- the middle is always within the list
  | case3 low high hlt middle hx =>
    have hshort : xs.length ≤ middle := by simpa using hx
    omega
  -- nothing is left to look at: the place is between the two sides
  | case4 low high hge =>
    have heq : low = high := by omega
    subst heq
    rw [insertionPlace, dif_neg hge]
    exact ⟨hwithin, hbelow, habove⟩

theorem insertionPlace_parts {xs : List ℝ} (h : xs.Pairwise (· ≤ ·)) (y : ℝ) :
    Parts xs y (insertionPlace xs.toArray y 0 xs.length) :=
  insertionPlace_between h (Nat.zero_le _) le_rfl (by simp) (by simp)

/-! ## Distances from an observation -/

/-- The prefix sums are the sums of the first particles. -/
theorem getD_prefixSums {xs : List ℝ} {k : Nat} (hk : k ≤ xs.length) (y : ℝ) :
    (prefixSums xs).getD k y = (xs.take k).sum := by
  rcases k with _ | k
  · simp [prefixSums]
  · have hplace : (prefixSums xs)[k + 1]? = some (xs.take (k + 1)).sum := by
      simp [prefixSums, Scalar.getElem?_cumulative hk]
    rw [Array.getD_eq_getD_getElem?, hplace]
    rfl

/-- The distances of a number from numbers that are not above it. -/
theorem sum_distances_of_ge {y : ℝ} {xs : List ℝ} (h : ∀ x ∈ xs, x ≤ y) :
    (xs.map fun x => |x - y|).sum = xs.length * y - xs.sum := by
  induction xs with
  | nil => simp
  | cons x rest ih =>
    obtain ⟨hx, hrest⟩ := List.forall_mem_cons.mp h
    rw [List.map_cons, List.sum_cons, ih hrest, abs_sub_comm, abs_of_nonneg (sub_nonneg.mpr hx),
      List.sum_cons, List.length_cons]
    push_cast
    ring

/-- The distances of a number from all, told apart by a place that parts them. -/
theorem Parts.sum_distances {xs : List ℝ} {y : ℝ} {k : Nat} (h : Parts xs y k) :
    (xs.map fun x => |x - y|).sum =
      (k * y - (xs.take k).sum) + ((xs.sum - (xs.take k).sum) - (xs.length - k : Nat) * y) := by
  have hbelow := sum_distances_of_ge h.below
  have habove := sum_distances_of_le fun x hx => (h.above x hx).le
  have hsum := List.sum_take_add_sum_drop xs k
  have hdistances := List.sum_take_add_sum_drop (xs.map fun x => |x - y|) k
  simp only [abs_sub_comm y] at habove
  rw [List.length_take, min_eq_left h.within] at hbelow
  rw [List.length_drop] at habove
  rw [← List.map_take, ← List.map_drop, hbelow, habove] at hdistances
  linarith

/-- **The prefix sums have the distances**: those of the particles not above the observation, and those
of the particles above it. -/
theorem meanDistance_eq {xs : List ℝ} (h : xs.Pairwise (· ≤ ·)) (y : ℝ) :
    meanDistance xs.toArray (prefixSums xs) y = (xs.map fun x => |x - y|).sum / xs.length := by
  have hparts := insertionPlace_parts h y
  simp only [meanDistance, List.size_toArray, getD_prefixSums hparts.within, getD_prefixSums le_rfl,
    List.take_length, Scalar.ofNat_real]
  rw [hparts.sum_distances]
  congr 1
  ring

/-! ## The terms of a sample -/

theorem meanDifference_sorted (x : Value ℝ) : meanDifference x.particles.sorted =
    1 / (x.size : ℝ) ^ 2 * ∑ i ∈ range x.size, ∑ j ∈ range x.size, |x.particle i - x.particle j| := by
  have hperm := x.particles.sorted_perm
  have hlength : x.particles.sorted.length = x.size := hperm.length_eq
  rw [meanDifference_eq x.particles.sorted_pairwise, pairSum_perm hperm, hlength, pairSum,
    Sample.sum_map_toList, div_eq_inv_mul, one_div]
  simp only [Sample.sum_map_toList]
  rfl

theorem meanDistances_sorted (x y : Value ℝ) : meanDistances x.particles.sorted y =
    y.map fun t => 1 / x.size * ∑ i ∈ range x.size, |x.particle i - t| := by
  have hperm := x.particles.sorted_perm
  have hlength : x.particles.sorted.length = x.size := hperm.length_eq
  refine congrArg y.map (funext fun t => ?_)
  rw [meanDistance_eq x.particles.sorted_pairwise, hlength, (hperm.map _).sum_eq,
    Sample.sum_map_toList, div_eq_inv_mul, one_div]
  rfl

/-- A scale takes every value if it is the plain one, and else the values above zero. -/
theorem Scale.transform_eq {scale : Scale} {v : Value ℝ}
    (h : scale = .plain ∨ ∀ i, 0 < v.particle i) : scale.transform v = .ok (v.map scale.apply) := by
  have hplain : v.map (apply plain) = v := Value.map_id v
  have hnone : (∀ i, 0 < v.particle i) →
      (v.particles.toList.find? fun x => Scalar.le x (Scalar.ofNat 0)) = none := by
    intro hpos
    rw [List.find?_eq_none]
    intro x hx
    obtain ⟨i, hi⟩ := List.mem_iff_getElem?.mp hx
    have hx : v.particle i = x := Sample.particle_eq_of_getElem? hi
    simpa [← hx] using hpos i
  cases scale with
  | plain => rw [transform, hplain]
  | log => simp only [transform, hnone (h.resolve_left Scale.noConfusion)]
  | decibel => simp only [transform, hnone (h.resolve_left Scale.noConfusion)]

/-- Two quantities of one dimension that a scale takes have a score, whose terms are mean distances on
that scale. -/
theorem components_ok (scale : Scale) {forecast observation : Quantity ℝ}
    (hforecast : forecast.unit.Known) (hobservation : observation.unit.Known)
    (hdimension : observation.dimension = forecast.dimension)
    (hpositive : scale = .plain ∨
      (∀ i, 0 < forecast.value.particle i) ∧ ∀ i, 0 < observation.value.particle i) :
    let x := forecast.value.map scale.apply
    let ratio := observation.unit.size / forecast.unit.size
    components scale forecast observation =
      .ok ⟨(observation.value.map fun y => scale.apply (y * ratio)).map fun t =>
          1 / x.size * ∑ i ∈ range x.size, |x.particle i - t|,
        1 / 2 * (1 / (x.size : ℝ) ^ 2 *
          ∑ i ∈ range x.size, ∑ j ∈ range x.size, |x.particle i - x.particle j|)⟩ := by
  intro x ratio
  have hratio : 0 < ratio := div_pos hobservation.size_pos hforecast.size_pos
  have hsame : forecast.unit.sameDimension observation.unit = true :=
    CompoundUnit.sameDimension_iff.mpr hdimension.symm
  have hx := Scale.transform_eq (hpositive.imp_right And.left)
  -- the scale is read off after the change of the unit, and the change keeps the particles above zero
  have hy : scale.transform (observation.value.map (· * ratio)) =
      .ok (observation.value.map fun y => scale.apply (y * ratio)) := by
    rw [Scale.transform_eq, Value.map_map]
    · rfl
    · refine hpositive.imp_right fun h i => ?_
      rw [Value.particle_map]
      exact mul_pos (h.2 i) hratio
  have hcomponents : components scale forecast observation =
      .ok ⟨meanDistances x.particles.sorted (observation.value.map fun y => scale.apply (y * ratio)),
        Scalar.ofRat 0.5 * meanDifference x.particles.sorted⟩ := by
    simp only [components, hsame, Quantity.convert_eq hobservation hforecast hdimension, hx, bind,
      Except.bind]
    rw [hy]
    rfl
  have hhalf : (Scalar.ofRat 0.5 : ℝ) = 1 / 2 := by norm_num
  rw [hcomponents, meanDistances_sorted, meanDifference_sorted, hhalf]

/-- **The terms of a score are mean distances.** The resolution is half the mean distance of the
forecast's particles from each other, and the reliability at each particle of the observation is the mean
distance of the forecast's particles from it; both on the given scale, with the observation in the unit of
the forecast. -/
theorem components_eq_mean_distances (scale : Scale) {forecast observation : Quantity ℝ}
    (hforecast : forecast.unit.Known) (hobservation : observation.unit.Known)
    (hdimension : observation.dimension = forecast.dimension)
    (hpositive : scale = .plain ∨
      (∀ i, 0 < forecast.value.particle i) ∧ ∀ i, 0 < observation.value.particle i) :
    let n := forecast.size
    let x (i : Nat) : ℝ := scale.apply (forecast.value.particle i)
    let ratio := observation.unit.size / forecast.unit.size
    components scale forecast observation =
      .ok ⟨observation.value.map fun y =>
          1 / n * ∑ i ∈ range n, |x i - scale.apply (y * ratio)|,
        1 / 2 * (1 / (n : ℝ) ^ 2 * ∑ i ∈ range n, ∑ j ∈ range n, |x i - x j|)⟩ := by
  intro n x ratio
  rw [components_ok scale hforecast hobservation hdimension hpositive, Value.map_map, Value.size_map]
  simp only [Value.particle_map]
  rfl

/-- Four particles in no order, against two observations. -/
theorem components_of_four :
    components .plain ⟨.sample ⟨3, [1, 2, 2]⟩, .one⟩ ⟨.sample ⟨2, [0]⟩, .one⟩ =
      .ok (⟨.sample ⟨1 / 2, [2]⟩, 3 / 8⟩ : Components ℝ) := by
  have h := @components_eq_mean_distances .plain ⟨.sample ⟨3, [1, 2, 2]⟩, .one⟩
    ⟨.sample ⟨2, [0]⟩, .one⟩ CompoundUnit.known_one CompoundUnit.known_one rfl (.inl rfl)
  have hn : (Quantity.mk (.sample ⟨3, [1, 2, 2]⟩) .one : Quantity ℝ).size = 4 := rfl
  have h0 : (Value.sample ⟨3, [1, 2, 2]⟩ : Value ℝ).particle 0 = 3 := rfl
  have h1 : (Value.sample ⟨3, [1, 2, 2]⟩ : Value ℝ).particle 1 = 1 := rfl
  have h2 : (Value.sample ⟨3, [1, 2, 2]⟩ : Value ℝ).particle 2 = 2 := rfl
  have h3 : (Value.sample ⟨3, [1, 2, 2]⟩ : Value ℝ).particle 3 = 2 := rfl
  rw [h]
  simp only [hn, Finset.sum_range_succ, Finset.sum_range_zero, h0, h1, h2, h3, Scale.apply,
    CompoundUnit.size_one, Value.map, Sample.map, List.map]
  norm_num [abs_of_nonneg, abs_of_neg]

end Score

end Ballpark
