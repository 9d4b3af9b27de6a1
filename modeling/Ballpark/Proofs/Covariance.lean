import Ballpark.Proofs.Particle
import Ballpark.Proofs.ScoreTerms

/-!
# Covariance

How two lists of particles vary together, place by place. The covariance is linear in each of them
(`covariance_add_left`, `covariance_sum_left`) and does not see a constant, so the variance of a sum is
made of the covariances of its terms. A quantity is exact or has a particle at each of `n` places; either
way its variance is the covariance of its particles with themselves (`Quantity.variance_eq`).
-/

namespace Ballpark

open Finset (range)

/-- The mean over the first `n` places. -/
noncomputable def average (n : ℕ) (f : ℕ → ℝ) : ℝ :=
  (∑ i ∈ range n, f i) / n

/-- The mean product of the distances from the means. -/
noncomputable def covariance (n : ℕ) (f g : ℕ → ℝ) : ℝ :=
  average n fun i => (f i - average n f) * (g i - average n g)

section

variable {n : ℕ} {f g h : ℕ → ℝ}

theorem average_congr (hfg : ∀ i < n, f i = g i) : average n f = average n g := by
  rw [average, average, Finset.sum_congr rfl fun i hi => hfg i (Finset.mem_range.mp hi)]

theorem average_add (f g : ℕ → ℝ) : (average n fun i => f i + g i) = average n f + average n g := by
  rw [average, average, average, Finset.sum_add_distrib, add_div]

theorem average_mul (a : ℝ) (f : ℕ → ℝ) : (average n fun i => a * f i) = a * average n f := by
  rw [average, average, ← Finset.mul_sum, mul_div_assoc]

theorem covariance_congr {f' g' : ℕ → ℝ} (hf : ∀ i < n, f i = f' i) (hg : ∀ i < n, g i = g' i) :
    covariance n f g = covariance n f' g' := by
  rw [covariance, covariance, average_congr hf, average_congr hg]
  exact average_congr fun i hi => by rw [hf i hi, hg i hi]

theorem covariance_comm (f g : ℕ → ℝ) : covariance n f g = covariance n g f := by
  rw [covariance, covariance]
  exact average_congr fun i _ => mul_comm _ _

/-- The mean product less the product of the means. -/
theorem covariance_eq (f g : ℕ → ℝ) :
    covariance n f g = (average n fun i => f i * g i) - average n f * average n g := by
  rcases Nat.eq_zero_or_pos n with rfl | hn
  · simp [covariance, average]
  have hn' : (n : ℝ) ≠ 0 := Nat.cast_ne_zero.mpr hn.ne'
  have hexpand : ∀ i, (f i - average n f) * (g i - average n g) =
      f i * g i + (-average n g * f i + (-average n f * g i + average n f * average n g)) := fun i => by ring
  have hconst : (average n fun _ => average n f * average n g) = average n f * average n g := by
    rw [average, Finset.sum_const, Finset.card_range, nsmul_eq_mul, mul_div_cancel_left₀ _ hn']
  simp only [covariance, hexpand, average_add, average_mul, hconst]
  ring

theorem covariance_add_left (f g h : ℕ → ℝ) :
    covariance n (fun i => f i + g i) h = covariance n f h + covariance n g h := by
  simp only [covariance_eq, add_mul, average_add]
  ring

theorem covariance_add_right (f g h : ℕ → ℝ) :
    covariance n f (fun i => g i + h i) = covariance n f g + covariance n f h := by
  rw [covariance_comm, covariance_add_left, covariance_comm g, covariance_comm h]

theorem covariance_mul_left (a : ℝ) (f g : ℕ → ℝ) :
    covariance n (fun i => a * f i) g = a * covariance n f g := by
  simp only [covariance_eq, mul_assoc, average_mul]
  ring

theorem covariance_mul_self (a : ℝ) (f : ℕ → ℝ) :
    covariance n (fun i => a * f i) (fun i => a * f i) = a ^ 2 * covariance n f f := by
  rw [covariance_mul_left, covariance_comm, covariance_mul_left, ← mul_assoc, sq]

/-- A constant does not vary. -/
theorem covariance_const_left (x : ℝ) (g : ℕ → ℝ) : covariance n (fun _ => x) g = 0 := by
  have hone : covariance n (fun _ => (1 : ℝ)) g = 0 := by
    rcases Nat.eq_zero_or_pos n with rfl | hn
    · simp [covariance, average]
    · have hn' : (n : ℝ) ≠ 0 := Nat.cast_ne_zero.mpr hn.ne'
      simp [covariance_eq, average, hn']
  simpa [hone] using covariance_mul_left (n := n) x (fun _ => 1) g

/-- The covariance with a sum, term by term. -/
theorem covariance_sum_left {α : Type} (xs : List α) (a : α → ℝ) (f : α → ℕ → ℝ) (g : ℕ → ℝ) :
    covariance n (fun i => (xs.map fun x => a x * f x i).sum) g =
      (xs.map fun x => a x * covariance n (f x) g).sum := by
  induction xs with
  | nil => exact covariance_const_left 0 g
  | cons x rest ih =>
    simp only [List.map_cons, List.sum_cons]
    rw [covariance_add_left, covariance_mul_left, ih]

theorem covariance_sum_right {α : Type} (xs : List α) (a : α → ℝ) (f : α → ℕ → ℝ) (g : ℕ → ℝ) :
    covariance n g (fun i => (xs.map fun x => a x * f x i).sum) =
      (xs.map fun x => a x * covariance n g (f x)).sum := by
  rw [covariance_comm, covariance_sum_left]
  exact congrArg List.sum (List.map_congr_left fun x _ => by rw [covariance_comm])

/-- The covariance of a term with a sum of terms. -/
theorem covariance_mul_sum {α : Type} (x : ℝ) (g : ℕ → ℝ) (xs : List α) (a : α → ℝ) (f : α → ℕ → ℝ) :
    covariance n (fun i => x * g i) (fun i => (xs.map fun y => a y * f y i).sum) =
      (xs.map fun y => x * a y * covariance n g (f y)).sum := by
  rw [covariance_mul_left, covariance_sum_right, ← List.sum_map_mul_left]
  exact congrArg List.sum (List.map_congr_left fun y _ => (mul_assoc _ _ _).symm)

theorem covariance_self_nonneg (f : ℕ → ℝ) : 0 ≤ covariance n f f := by
  rw [covariance, average]
  exact div_nonneg (Finset.sum_nonneg fun i _ => mul_self_nonneg _) n.cast_nonneg

/-- **What the variance of a sum loses when one term is held still**: the variance of the term, and twice
its covariance with the rest. -/
theorem covariance_add_self_sub (f g : ℕ → ℝ) (x : ℝ) :
    covariance n (fun i => f i + g i) (fun i => f i + g i) -
        covariance n (fun i => x + g i) (fun i => x + g i) =
      covariance n f f + 2 * covariance n f g := by
  have hconst : covariance n (fun i => x + g i) (fun i => x + g i) = covariance n g g := by
    rw [covariance_add_left, covariance_const_left, covariance_add_right, covariance_comm g,
      covariance_const_left, zero_add, zero_add]
  rw [hconst, covariance_add_left, covariance_add_right, covariance_add_right, covariance_comm g f]
  ring

end

namespace Sample

/-- The covariance of two samples of the same size. -/
noncomputable def covariance (s t : Sample ℝ) : ℝ :=
  (s.zipWith (fun x y => (x - s.mean) * (y - t.mean)) t).mean

theorem mean_eq (s : Sample ℝ) : s.mean = average s.size s.particle := by
  have hsum : s.toList.sum = ∑ i ∈ range s.size, s.particle i := by
    simpa using s.sum_map_toList id
  rw [mean, Scalar.mean, Scalar.total_eq_sum, hsum, Scalar.ofNat_real, average]
  rfl

theorem variance_eq (s : Sample ℝ) :
    s.variance = Ballpark.covariance s.size s.particle s.particle := by
  have hmean : Scalar.mean s.toList = average s.size s.particle := s.mean_eq
  set distance := fun x => (x - average s.size s.particle) * (x - average s.size s.particle)
  have hmap := (s.map distance).mean_eq
  rw [size_map, funext (s.particle_map distance)] at hmap
  rw [variance, Scalar.variance, hmean]
  exact hmap

theorem covariance_eq {s t : Sample ℝ} (h : t.size = s.size) :
    s.covariance t = Ballpark.covariance s.size s.particle t.particle := by
  rw [covariance, mean_eq, size_zipWith, h, max_self, s.mean_eq, t.mean_eq, h]
  refine average_congr fun i hi => ?_
  rw [particle_zipWith _ _ _ (by rw [h, max_self]; exact hi)]

end Sample

namespace Quantity

/-- The covariance of the particles of two quantities. -/
noncomputable def covariance (p q : Quantity ℝ) : ℝ :=
  p.value.particles.covariance q.value.particles

theorem covariance_eq {p q : Quantity ℝ} {n : ℕ} (hp : p.value.size = n) (hq : q.value.size = n) :
    p.covariance q = Ballpark.covariance n p.value.particle q.value.particle := by
  subst hp
  exact Sample.covariance_eq hq

/-- An exact quantity does not vary, whatever the number of places. -/
theorem variance_eq {q : Quantity ℝ} {n : ℕ} (h : q.value.Fits n) :
    q.variance = Ballpark.covariance n q.value.particle q.value.particle := by
  rcases hvalue : q.value with x | s
  · have hparticle : (Value.scalar x).particle = fun _ => x := funext (Value.particle_scalar x)
    rw [variance, hvalue, hparticle, covariance_const_left]
    simp
  · rw [hvalue] at h
    have hsize : s.size = n := h.resolve_left (by simp [Value.isScalar])
    rw [variance, hvalue, ← hsize]
    exact s.variance_eq

end Quantity

end Ballpark
