import Mathlib.Analysis.SpecialFunctions.Gaussian.GaussianIntegral
import Mathlib.MeasureTheory.Integral.IntervalIntegral.FundThmCalculus

/-!
# The error function over the reals

The samplers of intervals need one quantile of the standard normal, which they take from the inverse
of the error function. Over the reals that inverse is a definition like any other: the error function
is the normalised integral of the Gaussian, it runs continuously from zero towards one, so every mass
strictly between is reached (`erf_erfInv`), and only to the right of zero (`erfInv_pos`).
-/

namespace Ballpark

open Filter MeasureTheory

/-- Two is a numeral of the reals. -/
instance two_atLeastTwo : Nat.AtLeastTwo 2 :=
  ⟨le_rfl⟩

/-- The error function. -/
noncomputable def erf (x : ℝ) : ℝ :=
  2 / √Real.pi * ∫ t in (0 : ℝ)..x, Real.exp (-1 * t ^ 2)

/-- An inverse of the error function. -/
noncomputable def erfInv : ℝ → ℝ :=
  Function.invFun erf

theorem erf_zero : erf 0 = 0 := by
  simp [erf]

theorem erf_nonpos {x : ℝ} (hx : x ≤ 0) : erf x ≤ 0 := by
  have hint : 0 ≤ ∫ t in x..(0 : ℝ), Real.exp (-1 * t ^ 2) :=
    intervalIntegral.integral_nonneg hx fun t _ => (Real.exp_pos _).le
  rw [erf, intervalIntegral.integral_symm]
  exact mul_nonpos_of_nonneg_of_nonpos (by positivity) (neg_nonpos.mpr hint)

theorem erf_continuous : Continuous erf := by
  have hexp : Continuous fun t : ℝ => Real.exp (-1 * t ^ 2) := by fun_prop
  exact continuous_const.mul
    (intervalIntegral.continuous_primitive (fun a b => hexp.intervalIntegrable a b) 0)

/-- The whole mass of the error function lies within one. -/
theorem erf_tendsto : Tendsto erf atTop (nhds 1) := by
  have hint : IntegrableOn (fun t : ℝ => Real.exp (-1 * t ^ 2)) (Set.Ioi 0) :=
    (integrable_exp_neg_mul_sq one_pos).integrableOn
  have hlim := (intervalIntegral_tendsto_integral_Ioi 0 hint tendsto_id).const_mul (2 / √Real.pi)
  have hone : 2 / √Real.pi * ∫ t in Set.Ioi (0 : ℝ), Real.exp (-1 * t ^ 2) = 1 := by
    have hpi : √Real.pi ≠ 0 := (Real.sqrt_pos.mpr Real.pi_pos).ne'
    rw [integral_gaussian_Ioi, div_one]
    field_simp
  rw [hone] at hlim
  exact hlim

/-- The inverse is one on every mass between zero and one. -/
theorem erf_erfInv {m : ℝ} (h0 : 0 < m) (h1 : m < 1) : erf (erfInv m) = m := by
  have hreached : ∃ x, erf x = m := by
    obtain ⟨top, htop⟩ := (erf_tendsto.eventually_const_lt h1).exists
    have hpos : 0 ≤ top := by
      by_contra hneg
      have := erf_nonpos (not_le.mp hneg).le
      linarith
    have hmem : m ∈ Set.Icc (erf 0) (erf top) := by
      rw [erf_zero]
      exact ⟨h0.le, htop.le⟩
    obtain ⟨x, -, hx⟩ := intermediate_value_Icc hpos erf_continuous.continuousOn hmem
    exact ⟨x, hx⟩
  exact Function.invFun_eq hreached

theorem erfInv_pos {m : ℝ} (h0 : 0 < m) (h1 : m < 1) : 0 < erfInv m := by
  by_contra hneg
  have hle := erf_nonpos (not_lt.mp hneg)
  rw [erf_erfInv h0 h1] at hle
  linarith

end Ballpark
