import Mathlib.MeasureTheory.Integral.Bochner.Set
import Mathlib.MeasureTheory.Measure.Lebesgue.Basic
import Ballpark.Proofs.ScoreTerms

/-!
# The score as a distance

A score is reliability less resolution: mean distances from the observation, less half the mean distances
of the particles from each other. It is also a distance between two distributions, that of the sample and
the one that jumps at the observation: the square of their difference, summed over the whole line
(`Score.score_eq_integral`).

The square at one number is linear in which of the particles and the observation have been reached there
(`Score.missed_eq`), and two numbers are apart, one reached and the other not, over a stretch as long as
their distance. So it does not matter how the line is summed: over the gaps between the points, where
the steps telescope (`Score.gapSum_apart`), or as an integral (`Score.integral_apart`).

That the score is zero only for a forecast that is sure and right is seen from the mean distances. The
way from one particle to another is no longer than past the observation, and from a particle to itself it
is shorter by all of that; so the score is at least a share of the distances from the observation
(`Score.share_of_distances_le`).
-/

namespace Ballpark

open Finset (range)
open MeasureTheory

namespace Score

/-- One from a number on, zero below it. -/
noncomputable def step (a t : ℝ) : ℝ :=
  if a ≤ t then 1 else 0

theorem step_of_le {a t : ℝ} (h : a ≤ t) : step a t = 1 :=
  if_pos h

theorem step_of_lt {a t : ℝ} (h : t < a) : step a t = 0 :=
  if_neg h.not_ge

/-- One where exactly one of two numbers has been reached. -/
noncomputable def apart (a b t : ℝ) : ℝ :=
  (step a t - step b t) ^ 2

theorem apart_comm (a b : ℝ) : apart a b = apart b a := by
  funext t
  exact sub_sq_comm _ _

/-- Two numbers are apart from the smaller one on, until the larger one is reached. -/
theorem apart_of_le {a b : ℝ} (h : a ≤ b) : apart a b = step a - step b := by
  funext t
  rw [apart, Pi.sub_apply]
  rcases lt_or_ge t a with hta | hat
  · rw [step_of_lt hta, step_of_lt (hta.trans_le h)]
    norm_num
  · rcases lt_or_ge t b with htb | hbt
    · rw [step_of_le hat, step_of_lt htb]
      norm_num
    · rw [step_of_le hat, step_of_le hbt]
      norm_num

theorem apart_eq_indicator {a b : ℝ} (h : a ≤ b) : apart a b = (Set.Ico a b).indicator 1 := by
  funext t
  rw [apart_of_le h, Pi.sub_apply]
  by_cases hmem : t ∈ Set.Ico a b
  · rw [Set.indicator_of_mem hmem, step_of_le hmem.1, step_of_lt hmem.2, sub_zero, Pi.one_apply]
  · rw [Set.indicator_of_notMem hmem]
    rcases lt_or_ge t a with hta | hat
    · rw [step_of_lt hta, step_of_lt (hta.trans_le h), sub_self]
    · rw [step_of_le hat, step_of_le (not_lt.mp fun htb => hmem ⟨hat, htb⟩), sub_self]

/-! ## Sums over gaps -/

/-- The sum over the gaps between consecutive points of a function that is constant inside them: the width of
each gap, times the value where the gap begins. -/
def gapSum (points : List ℝ) : (ℝ → ℝ) →ₗ[ℝ] ℝ where
  toFun f := ((points.zip points.tail).map fun gap => (gap.2 - gap.1) * f gap.1).sum
  map_add' f g := by
    simp only [Pi.add_apply, mul_add]
    exact List.sum_map_add
  map_smul' c f := by
    simp only [Pi.smul_apply, smul_eq_mul, RingHom.id_apply, mul_left_comm _ c]
    exact List.sum_map_mul_left _ _ _

theorem gapSum_cons (a b : ℝ) (rest : List ℝ) (f : ℝ → ℝ) :
    gapSum (a :: b :: rest) f = (b - a) * f a + gapSum (b :: rest) f := rfl

theorem gapSum_singleton (a : ℝ) (f : ℝ → ℝ) : gapSum [a] f = 0 := rfl

/-- Past a number all gaps count: what they add up to is the way to the last point. -/
theorem gapSum_step_head {a p : ℝ} {rest : List ℝ} (hsorted : (p :: rest).Pairwise (· ≤ ·)) (h : a ≤ p) :
    gapSum (p :: rest) (step a) = rest.getLastD p - p := by
  induction rest generalizing p with
  | nil => rw [gapSum_singleton, List.getLastD_nil, sub_self]
  | cons q rest ih =>
    obtain ⟨hp, hrest⟩ := List.pairwise_cons.mp hsorted
    have hpq : p ≤ q := hp q List.mem_cons_self
    rw [gapSum_cons, ih hrest (h.trans hpq), step_of_le h, List.getLastD_cons]
    ring

/-- The gaps from a point on add up to the way from it to the last point. -/
theorem gapSum_step {a p : ℝ} {rest : List ℝ} (hsorted : (p :: rest).Pairwise (· ≤ ·))
    (h : a ∈ p :: rest) : gapSum (p :: rest) (step a) = rest.getLastD p - a := by
  induction rest generalizing p with
  | nil =>
    obtain rfl := List.mem_singleton.mp h
    exact gapSum_step_head hsorted le_rfl
  | cons q rest ih =>
    obtain ⟨hp, hrest⟩ := List.pairwise_cons.mp hsorted
    rcases List.mem_cons.mp h with rfl | hmem
    · exact gapSum_step_head hsorted le_rfl
    rcases (hp a hmem).eq_or_lt with rfl | hlt
    · exact gapSum_step_head hsorted le_rfl
    · rw [gapSum_cons, ih hrest hmem, step_of_lt hlt, List.getLastD_cons, mul_zero, zero_add]

/-- **Two points are apart over their distance**, summed over gaps. -/
theorem gapSum_apart {points : List ℝ} (hsorted : points.Pairwise (· ≤ ·)) {a b : ℝ} (ha : a ∈ points)
    (hb : b ∈ points) : gapSum points (apart a b) = |a - b| := by
  wlog h : a ≤ b generalizing a b
  · rw [apart_comm, abs_sub_comm, this hb ha (le_of_not_ge h)]
  obtain ⟨p, rest, rfl⟩ := List.exists_cons_of_ne_nil (List.ne_nil_of_mem ha)
  rw [apart_of_le h, map_sub, gapSum_step hsorted ha, gapSum_step hsorted hb, abs_sub_comm,
    abs_of_nonneg (sub_nonneg.mpr h)]
  ring

/-! ## Integrals -/

theorem integrable_apart (a b : ℝ) : Integrable (apart a b) := by
  wlog h : a ≤ b generalizing a b
  · rw [apart_comm]
    exact this b a (le_of_not_ge h)
  rw [apart_eq_indicator h]
  exact (integrable_indicator_iff measurableSet_Ico).mpr (integrableOn_const (by simp))

/-- **Two numbers are apart over their distance**, as an integral. -/
theorem integral_apart (a b : ℝ) : ∫ t, apart a b t = |a - b| := by
  wlog h : a ≤ b generalizing a b
  · rw [apart_comm, abs_sub_comm, this b a (le_of_not_ge h)]
  rw [apart_eq_indicator h, integral_indicator_one measurableSet_Ico, Real.volume_real_Ico_of_le h,
    abs_sub_comm, abs_of_nonneg (sub_nonneg.mpr h)]

/-! ## The distance of a distribution from a number -/

variable {n : ℕ}

theorem sum_sub_sq (u : ℕ → ℝ) (v : ℝ) : ∑ i ∈ range n, (u i - v) ^ 2 =
    ∑ i ∈ range n, u i ^ 2 - 2 * v * ∑ i ∈ range n, u i + n * v ^ 2 := by
  simp only [sub_sq, Finset.sum_add_distrib, Finset.sum_sub_distrib, Finset.sum_const,
    Finset.card_range, nsmul_eq_mul, Finset.mul_sum]
  congr 2
  exact Finset.sum_congr rfl fun i _ => by ring

theorem sum_sum_sub_sq (u : ℕ → ℝ) : ∑ i ∈ range n, ∑ j ∈ range n, (u i - u j) ^ 2 =
    2 * n * ∑ i ∈ range n, u i ^ 2 - 2 * (∑ i ∈ range n, u i) ^ 2 := by
  have hinner : ∀ i, ∑ j ∈ range n, (u i - u j) ^ 2 =
      ∑ j ∈ range n, u j ^ 2 - 2 * u i * ∑ j ∈ range n, u j + n * u i ^ 2 := by
    intro i
    rw [← sum_sub_sq]
    exact Finset.sum_congr rfl fun j _ => sub_sq_comm _ _
  simp only [hinner, Finset.sum_add_distrib, Finset.sum_sub_distrib, Finset.sum_const,
    Finset.card_range, nsmul_eq_mul, ← Finset.mul_sum, ← Finset.sum_mul]
  ring

/-- A mean is as far from a number as the items are on average, less half of what they are apart. -/
theorem mean_sub_sq (hn : n ≠ 0) (u : ℕ → ℝ) (v : ℝ) : ((∑ i ∈ range n, u i) / n - v) ^ 2 =
    1 / n * ∑ i ∈ range n, (u i - v) ^ 2 -
      1 / 2 * (1 / (n : ℝ) ^ 2 * ∑ i ∈ range n, ∑ j ∈ range n, (u i - u j) ^ 2) := by
  have hn' : (n : ℝ) ≠ 0 := Nat.cast_ne_zero.mpr hn
  rw [sum_sub_sq, sum_sum_sub_sq]
  field_simp
  ring

/-- The share of the particles that a number reaches: the empirical distribution function. -/
noncomputable def share (x : Value ℝ) (t : ℝ) : ℝ :=
  ((range x.size).filter fun i => x.particle i ≤ t).card / x.size

/-- How far the distribution is at a number from one that jumps at the observation, squared. -/
noncomputable def missed (x : Value ℝ) (y t : ℝ) : ℝ :=
  (share x t - step y t) ^ 2

/-- The score of a sample against one observation. -/
noncomputable def distance (x : Value ℝ) (y : ℝ) : ℝ :=
  1 / x.size * ∑ i ∈ range x.size, |x.particle i - y| -
    1 / 2 * (1 / (x.size : ℝ) ^ 2 * ∑ i ∈ range x.size, ∑ j ∈ range x.size, |x.particle i - x.particle j|)

theorem share_eq (x : Value ℝ) (t : ℝ) : share x t = (∑ i ∈ range x.size, step (x.particle i) t) / x.size := by
  simp only [share, step, Finset.sum_boole]

/-- What is missed at a number is linear in what is apart there. -/
theorem missed_eq (x : Value ℝ) (y : ℝ) : missed x y =
    (1 / x.size : ℝ) • ∑ i ∈ range x.size, apart (x.particle i) y -
      (1 / 2 : ℝ) • (1 / (x.size : ℝ) ^ 2) •
        ∑ i ∈ range x.size, ∑ j ∈ range x.size, apart (x.particle i) (x.particle j) := by
  funext t
  simp only [missed, share_eq, mean_sub_sq x.size_pos.ne', Pi.sub_apply, Pi.smul_apply, Finset.sum_apply,
    smul_eq_mul, apart]

theorem gapSum_missed (x : Value ℝ) (y : ℝ) :
    gapSum (Sample.sorted ⟨y, x.particles.toList⟩) (missed x y) = distance x y := by
  have hperm := Sample.sorted_perm ⟨y, x.particles.toList⟩
  have hsorted := Sample.sorted_pairwise ⟨y, x.particles.toList⟩
  have hy : y ∈ Sample.sorted ⟨y, x.particles.toList⟩ := hperm.mem_iff.mpr List.mem_cons_self
  have hx : ∀ i ∈ range x.size, x.particle i ∈ Sample.sorted ⟨y, x.particles.toList⟩ := by
    intro i hi
    refine hperm.mem_iff.mpr (List.mem_cons_of_mem _ ?_)
    exact List.mem_of_getElem? (x.particles.getElem?_toList (Finset.mem_range.mp hi))
  simp only [missed_eq, distance, map_sub, map_smul, map_sum, smul_eq_mul]
  rw [Finset.sum_congr rfl fun i hi => gapSum_apart hsorted (hx i hi) hy,
    Finset.sum_congr rfl fun i hi => Finset.sum_congr rfl fun j hj =>
      gapSum_apart hsorted (hx i hi) (hx j hj)]

theorem integral_missed (x : Value ℝ) (y : ℝ) : ∫ t, missed x y t = distance x y := by
  have hto : Integrable (∑ i ∈ range x.size, apart (x.particle i) y) :=
    integrable_finsetSum' _ fun i _ => integrable_apart _ _
  have heach : ∀ i, Integrable (∑ j ∈ range x.size, apart (x.particle i) (x.particle j)) :=
    fun i => integrable_finsetSum' _ fun j _ => integrable_apart _ _
  have hamong : Integrable (∑ i ∈ range x.size, ∑ j ∈ range x.size, apart (x.particle i) (x.particle j)) :=
    integrable_finsetSum' _ fun i _ => heach i
  rw [missed_eq, distance, integral_sub' (hto.smul _) ((hamong.smul _).smul _)]
  simp only [Pi.smul_apply, Finset.sum_apply, smul_eq_mul, integral_const_mul]
  rw [integral_finsetSum _ fun i _ => integrable_apart _ _,
    integral_finsetSum _ fun i _ => by simpa only [Finset.sum_fn] using heach i]
  simp only [integral_finsetSum _ fun j _ => integrable_apart _ _, integral_apart]

/-! ## Never negative -/

/-- The way between two numbers leads past a third, from a number to itself it need not: so numbers are
apart by less than twice their distances from the third. -/
theorem sum_sum_abs_le (u : ℕ → ℝ) (v : ℝ) : ∑ i ∈ range n, ∑ j ∈ range n, |u i - u j| ≤
    2 * (n - 1) * ∑ i ∈ range n, |u i - v| := by
  have hpair : ∀ i ∈ range n, ∀ j ∈ range n,
      |u i - u j| ≤ |u i - v| + |u j - v| - if i = j then 2 * |u i - v| else 0 := by
    intro i _ j _
    by_cases hij : i = j
    · subst hij
      rw [if_pos rfl, sub_self, abs_zero]
      linarith
    · rw [if_neg hij, sub_zero, abs_sub_comm (u j)]
      exact abs_sub_le _ _ _
  have hself : ∀ i ∈ range n, (∑ j ∈ range n, if i = j then 2 * |u i - v| else 0) = 2 * |u i - v| :=
    fun i hi => by rw [Finset.sum_ite_eq, if_pos hi]
  calc ∑ i ∈ range n, ∑ j ∈ range n, |u i - u j|
      ≤ ∑ i ∈ range n, ∑ j ∈ range n,
          (|u i - v| + |u j - v| - if i = j then 2 * |u i - v| else 0) :=
        Finset.sum_le_sum fun i hi => Finset.sum_le_sum (hpair i hi)
    _ = n * ∑ i ∈ range n, |u i - v| + n * ∑ j ∈ range n, |u j - v| - 2 * ∑ i ∈ range n, |u i - v| := by
        simp only [Finset.sum_sub_distrib, Finset.sum_add_distrib, Finset.sum_const, Finset.card_range,
          nsmul_eq_mul, Finset.sum_congr rfl hself, ← Finset.mul_sum]
    _ = 2 * (n - 1) * ∑ i ∈ range n, |u i - v| := by ring

/-- The score is at least a share of each distance: a particle is not apart from itself. -/
theorem share_of_distances_le (x : Value ℝ) (y : ℝ) :
    1 / (x.size : ℝ) ^ 2 * ∑ i ∈ range x.size, |x.particle i - y| ≤ distance x y := by
  have hn : (0 : ℝ) < x.size := Nat.cast_pos.mpr x.size_pos
  have hshare : distance x y - 1 / (x.size : ℝ) ^ 2 * ∑ i ∈ range x.size, |x.particle i - y| =
      1 / 2 * (1 / (x.size : ℝ) ^ 2 * (2 * (x.size - 1) * ∑ i ∈ range x.size, |x.particle i - y| -
        ∑ i ∈ range x.size, ∑ j ∈ range x.size, |x.particle i - x.particle j|)) := by
    rw [distance]
    field_simp
    ring
  refine sub_nonneg.mp ?_
  rw [hshare]
  have := sub_nonneg.mpr (sum_sum_abs_le (n := x.size) x.particle y)
  positivity

theorem distance_nonneg (x : Value ℝ) (y : ℝ) : 0 ≤ distance x y := by
  refine le_trans ?_ (share_of_distances_le x y)
  positivity

/-- **Only a forecast that is sure and right has the score zero.** -/
theorem distance_eq_zero {x : Value ℝ} {y : ℝ} :
    distance x y = 0 ↔ ∀ i < x.size, x.particle i = y := by
  constructor
  · intro hzero i hi
    have hn : (0 : ℝ) < 1 / (x.size : ℝ) ^ 2 := by
      have := x.size_pos
      positivity
    have hle := share_of_distances_le x y
    rw [hzero] at hle
    have hsum : ∑ i ∈ range x.size, |x.particle i - y| = 0 :=
      le_antisymm (nonpos_of_mul_nonpos_right hle hn) (Finset.sum_nonneg fun _ _ => abs_nonneg _)
    have hall := (Finset.sum_eq_zero_iff_of_nonneg fun _ _ => abs_nonneg _).mp hsum
    exact sub_eq_zero.mp (abs_eq_zero.mp (hall i (Finset.mem_range.mpr hi)))
  · intro h
    have hto : ∑ i ∈ range x.size, |x.particle i - y| = 0 :=
      Finset.sum_eq_zero fun i hi => by rw [h i (Finset.mem_range.mp hi), sub_self, abs_zero]
    have hamong : ∑ i ∈ range x.size, ∑ j ∈ range x.size, |x.particle i - x.particle j| = 0 :=
      Finset.sum_eq_zero fun i hi => Finset.sum_eq_zero fun j hj => by
        rw [h i (Finset.mem_range.mp hi), h j (Finset.mem_range.mp hj), sub_self, abs_zero]
    rw [distance, hto, hamong]
    ring

/-- **The score is a distance to the observation.** A forecast and an observation of one dimension have a
score, at each particle of the observation: the sum over the gaps between the points of the square that
the distribution of the forecast misses the observation by, which is the integral of that square. It is
never negative, and zero just when every particle of the forecast is the observation, in the unit of the
forecast and on the given scale. -/
theorem score_eq_integral (scale : Scale) {forecast observation : Quantity ℝ}
    (hforecast : forecast.unit.Known) (hobservation : observation.unit.Known)
    (hdimension : observation.dimension = forecast.dimension)
    (hpositive : scale = .plain ∨
      (∀ i, 0 < forecast.value.particle i) ∧ ∀ i, 0 < observation.value.particle i) :
    let ratio := observation.unit.size / forecast.unit.size
    let x := forecast.value.map scale.apply
    let y := observation.value.map fun y => scale.apply (y * ratio)
    ∃ c, components scale forecast observation = .ok c ∧ c.score.isScalar = observation.value.isScalar ∧
      c.score.size = observation.value.size ∧ ∀ j,
        c.score.particle j =
          gapSum (Sample.sorted ⟨y.particle j, x.particles.toList⟩) (missed x (y.particle j)) ∧
        c.score.particle j = ∫ t, missed x (y.particle j) t ∧
        0 ≤ c.score.particle j ∧
        (c.score.particle j = 0 ↔ ∀ i < x.size, x.particle i = y.particle j) := by
  intro ratio x y
  refine ⟨_, components_ok scale hforecast hobservation hdimension hpositive, ?_, ?_, fun j => ?_⟩
  · simp only [Components.score, Value.isScalar_map]
  · simp only [Components.score, Value.size_map]
  · -- the two terms together are the distance of the forecast to the number
    have hscore : (Components.score ⟨y.map fun t => 1 / x.size * ∑ i ∈ range x.size, |x.particle i - t|,
        1 / 2 * (1 / (x.size : ℝ) ^ 2 *
          ∑ i ∈ range x.size, ∑ j ∈ range x.size, |x.particle i - x.particle j|)⟩).particle j =
        distance x (y.particle j) := by
      rw [Components.score, Value.particle_map, Value.particle_map]
      rfl
    rw [hscore]
    exact ⟨(gapSum_missed x _).symm, (integral_missed x _).symm, distance_nonneg x _, distance_eq_zero⟩

/-- Four particles around the observation: their score is above zero. -/
theorem score_of_four : ∃ c : Components ℝ,
    components .plain ⟨.sample ⟨3, [1, 2, 2]⟩, .one⟩ ⟨.scalar 2, .one⟩ = .ok c ∧
      c.score.particle 0 = ∫ t, missed (.sample ⟨3, [1, 2, 2]⟩) 2 t ∧ 0 < c.score.particle 0 := by
  obtain ⟨c, hc, -, -, hscore⟩ := @score_eq_integral .plain ⟨.sample ⟨3, [1, 2, 2]⟩, .one⟩
    ⟨.scalar 2, .one⟩ CompoundUnit.known_one CompoundUnit.known_one rfl (.inl rfl)
  obtain ⟨-, hintegral, hnonneg, hzero⟩ := hscore 0
  have hplain : ((Value.sample ⟨3, [1, 2, 2]⟩).map (Scale.apply .plain) : Value ℝ) =
      .sample ⟨3, [1, 2, 2]⟩ := Value.map_id _
  have htwo : Scale.apply .plain ((2 : ℝ) * (CompoundUnit.one.size / CompoundUnit.one.size)) = 2 := by
    rw [CompoundUnit.size_one, div_one, mul_one]
    rfl
  simp only [Value.particle_map, Value.particle_scalar, hplain, htwo] at hintegral hzero
  refine ⟨c, hc, hintegral, hnonneg.lt_of_ne fun h => ?_⟩
  have hthree : (3 : ℝ) = 2 := hzero.mp h.symm 0 (by decide)
  norm_num at hthree

end Score

end Ballpark
