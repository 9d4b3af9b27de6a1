import Mathlib.Analysis.Calculus.Deriv.MeanValue
import Mathlib.Analysis.Convex.Mul
import Mathlib.Analysis.SpecialFunctions.Log.Deriv
import Mathlib.Analysis.Complex.ExponentialBounds
import Ballpark.Random.Gamma
import Ballpark.Proofs.RealNumber

/-!
# The quick test of gamma candidates

A candidate of the gamma sampler passes a quick test, which is a polynomial, or an exact one with
logarithms. The quick test only saves logarithms: it accepts nothing that the exact one refuses
(`Sampler.squeeze_never_overrides`). With `y = c * x` the right side of the exact test is a multiple of
what the first three terms of its series leave over of `log (1 + y)` (`exact_eq_logRest`), so there are two
steps:

* of all shapes from one on the exact test lets least pass for a shape of one (`sq_mul_logRest_le`), because
  the rest falls off faster than the square (`neg_le_logRest`);
* for that shape the difference of the two tests is a function of one number, with a slope that changes its
  sign at zero and at the two roots of a polynomial of degree four (`marginSlope_sign`). It is zero at zero,
  and at the lower root it is just above (`squeezeMargin_root`), by about two thousandths.
-/

namespace Ballpark

namespace Sampler

/-- A function that falls up to a place and grows from there on is least at that place. -/
theorem le_of_turns {f f' : ℝ → ℝ} {D : Set ℝ} (hD : Convex ℝ D) {m : ℝ} (hm : m ∈ D)
    (hderiv : ∀ y ∈ D, HasDerivAt f (f' y) y) (hfalls : ∀ y ∈ D, y < m → f' y ≤ 0)
    (hgrows : ∀ y ∈ D, m < y → 0 ≤ f' y) {y : ℝ} (hy : y ∈ D) : f m ≤ f y := by
  have hcontinuous : ContinuousOn f D := fun z hz => (hderiv z hz).continuousAt.continuousWithinAt
  have hwithin : ∀ A : Set ℝ, ∀ z ∈ interior (D ∩ A), HasDerivWithinAt f (f' z) (interior (D ∩ A)) z :=
    fun A z hz => (hderiv z (interior_subset hz).1).hasDerivWithinAt
  rcases le_total y m with hle | hle
  · have hanti : AntitoneOn f (D ∩ Set.Iic m) := by
      refine antitoneOn_of_hasDerivWithinAt_nonpos (hD.inter (convex_Iic m))
        (hcontinuous.mono Set.inter_subset_left) (hwithin _) fun z hz => ?_
      rw [interior_inter, interior_Iic] at hz
      exact hfalls z (interior_subset hz.1) hz.2
    exact hanti ⟨hy, hle⟩ ⟨hm, Set.self_mem_Iic⟩ hle
  · have hmono : MonotoneOn f (D ∩ Set.Ici m) := by
      refine monotoneOn_of_hasDerivWithinAt_nonneg (hD.inter (convex_Ici m))
        (hcontinuous.mono Set.inter_subset_left) (hwithin _) fun z hz => ?_
      rw [interior_inter, interior_Ici] at hz
      exact hgrows z (interior_subset hz.1) hz.2
    exact hmono ⟨hm, Set.self_mem_Ici⟩ ⟨hy, hle⟩ hle

/-! ## What the series of the logarithm leaves over -/

/-- What the first three terms of its series leave over of the logarithm of `1 + y`. -/
noncomputable def logRest (y : ℝ) : ℝ :=
  Real.log (1 + y) - ∑ k ∈ Finset.range 3, (-1) ^ k * y ^ (k + 1) / (k + 1)

theorem logRest_eq (y : ℝ) : logRest y = Real.log (1 + y) - y + y ^ 2 / 2 - y ^ 3 / 3 := by
  rw [logRest, Finset.sum_range_succ, Finset.sum_range_succ, Finset.sum_range_one]
  push_cast
  ring

theorem hasDerivAt_logRest {y : ℝ} (hy : -1 < y) : HasDerivAt logRest (-y ^ 3 / (1 + y)) y := by
  have hpos : 0 < 1 + y := by linarith
  have hlog : HasDerivAt (fun z => Real.log (1 + z)) (1 / (1 + y)) y :=
    ((hasDerivAt_id y).const_add 1).log hpos.ne'
  have hterms := ((hlog.sub (hasDerivAt_id y)).add ((hasDerivAt_pow 2 y).div_const 2)).sub
    ((hasDerivAt_pow 3 y).div_const 3)
  rw [funext logRest_eq]
  refine hterms.congr_deriv ?_
  push_cast
  field_simp
  ring

/-- The rest is bounded below by the fourth power over `1 + y`. -/
theorem neg_le_logRest {y : ℝ} (hy : -1 < y) : -(y ^ 4 / (2 * (1 + y))) ≤ logRest y := by
  have hderiv : ∀ z ∈ Set.Ioi (-1 : ℝ), HasDerivAt (fun z => logRest z + z ^ 4 / (2 * (1 + z)))
      (z ^ 3 * (2 + z) / (2 * (1 + z) ^ 2)) z := by
    intro z hz
    have hpos : 0 < 1 + z := by linarith [Set.mem_Ioi.mp hz]
    have hquotient := (hasDerivAt_pow 4 z).div (((hasDerivAt_id z).const_add 1).const_mul 2)
      (mul_pos two_pos hpos).ne'
    refine ((hasDerivAt_logRest hz).add hquotient).congr_deriv ?_
    simp only [id]
    push_cast
    field_simp
    ring
  have hleast := le_of_turns (convex_Ioi (-1)) (m := 0) (by norm_num) hderiv
    (fun z hz hneg => ?_) (fun z hz hpos => ?_) (Set.mem_Ioi.mpr hy)
  · have hzero : logRest 0 + 0 ^ 4 / (2 * (1 + 0)) = 0 := by norm_num [logRest_eq]
    linarith
  · have hz' : -1 < z := hz
    have hcube : z ^ 3 ≤ 0 := Odd.pow_nonpos (by decide) hneg.le
    exact div_nonpos_of_nonpos_of_nonneg (mul_nonpos_of_nonpos_of_nonneg hcube (by linarith)) (by positivity)
  · positivity

/-- For a smaller number the rest shrinks by more than the square of the ratio. -/
theorem sq_mul_logRest_le {θ y : ℝ} (hθ : 0 < θ) (hθ' : θ ≤ 1) (hy : -1 < y) :
    θ ^ 2 * logRest y ≤ logRest (θ * y) := by
  -- between the ratio and one nothing falls out of the domain of the logarithm
  have hbelow : ∀ t ∈ Set.Icc θ 1, 0 < t ∧ -1 < t * y := by
    intro t ht
    have htpos := hθ.trans_le ht.1
    refine ⟨htpos, ?_⟩
    rcases le_total 0 y with h | h
    · nlinarith
    · nlinarith [ht.2]
  -- the rest over the square of the ratio is a function of the ratio, and it never grows
  have hderiv : ∀ t ∈ Set.Icc θ 1, HasDerivAt (fun t => logRest (t * y) / t ^ 2)
      (-(2 * logRest (t * y) + (t * y) ^ 4 / (1 + t * y)) / t ^ 3) t := by
    intro t ht
    obtain ⟨htpos, hty⟩ := hbelow t ht
    have hne : 1 + t * y ≠ 0 := by linarith
    have hinner : HasDerivAt (logRest ∘ fun t => t * y) (-(t * y) ^ 3 / (1 + t * y) * y) t :=
      (hasDerivAt_logRest hty).comp t (hasDerivAt_mul_const y)
    refine (hinner.div (hasDerivAt_pow 2 t) (pow_pos htpos 2).ne').congr_deriv ?_
    rw [Function.comp_apply]
    push_cast
    field_simp
    ring
  have hleast := le_of_turns (convex_Icc θ 1) (m := 1) ⟨hθ', le_rfl⟩ hderiv (fun t ht _ => ?_)
    (fun t ht hlt => absurd ht.2 (not_le.mpr hlt)) (y := θ) ⟨le_rfl, hθ'⟩
  · rw [one_mul, one_pow, div_one, le_div_iff₀ (pow_pos hθ 2)] at hleast
    linarith
  · obtain ⟨htpos, hty⟩ := hbelow t ht
    have hrest := neg_le_logRest hty
    have hhalf : (t * y) ^ 4 / (2 * (1 + t * y)) = (t * y) ^ 4 / (1 + t * y) / 2 := by
      rw [div_div, mul_comm 2]
    exact div_nonpos_of_nonpos_of_nonneg (by linarith) (pow_pos htpos 3).le

/-! ## The smallest shape -/

/-- The factor of the quick test for a shape of one, where a normal number `x` counts as `x / √6`. -/
noncomputable def squeezeFactor : ℝ :=
  36 * 0.0331

/-- The numbers that the quick test accepts anything for. -/
def squeezeRange : Set ℝ :=
  {y | squeezeFactor * y ^ 4 < 1}

/-- By how much the exact test lets more pass than the quick one, as a difference of logarithms. -/
noncomputable def squeezeMargin (y : ℝ) : ℝ :=
  2 * logRest y - Real.log (1 - squeezeFactor * y ^ 4)

/-- The sign of the slope of the margin, next to that of the number. -/
noncomputable def marginSlope (y : ℝ) : ℝ :=
  squeezeFactor * (y ^ 4 + 2 * y + 2) - 1

theorem squeezeFactor_pos : 0 < squeezeFactor := by
  norm_num [squeezeFactor]

theorem convex_squeezeRange : Convex ℝ squeezeRange := by
  have hpow : ConvexOn ℝ Set.univ fun y : ℝ => squeezeFactor * y ^ 4 := by
    have heven : Even 4 := by decide
    simpa using (show ConvexOn ℝ Set.univ fun y : ℝ => y ^ 4 from heven.convexOn_pow).smul squeezeFactor_pos.le
  simpa [squeezeRange] using hpow.convex_lt 1

theorem neg_one_lt_of_mem_squeezeRange {y : ℝ} (hy : y ∈ squeezeRange) : -1 < y := by
  have hone : y ^ 4 < 1 := by
    have hy' : squeezeFactor * y ^ 4 < 1 := hy
    norm_num [squeezeFactor] at hy'
    nlinarith [sq_nonneg (y ^ 2)]
  exact (abs_lt.mp ((pow_lt_one_iff_of_nonneg (abs_nonneg y) (by decide : 4 ≠ 0)).mp
    (by rwa [Even.pow_abs (by decide)]))).1

/-- A factor of the slope that is never below zero. -/
noncomputable def marginWeight (y : ℝ) : ℝ :=
  2 * y ^ 2 / ((1 - squeezeFactor * y ^ 4) * (1 + y))

theorem marginWeight_nonneg {y : ℝ} (hy : y ∈ squeezeRange) : 0 ≤ marginWeight y := by
  have hrest : 0 ≤ 1 - squeezeFactor * y ^ 4 := (sub_pos.mpr hy).le
  have hpos : 0 ≤ 1 + y := by linarith [neg_one_lt_of_mem_squeezeRange hy]
  exact div_nonneg (by positivity) (mul_nonneg hrest hpos)

theorem hasDerivAt_squeezeMargin {y : ℝ} (hy : y ∈ squeezeRange) :
    HasDerivAt squeezeMargin (y * marginSlope y * marginWeight y) y := by
  have hbelow := neg_one_lt_of_mem_squeezeRange hy
  have hpos : 1 + y ≠ 0 := by linarith
  have hrest : 1 - squeezeFactor * y ^ 4 ≠ 0 := (sub_pos.mpr hy).ne'
  have hlog := (((hasDerivAt_pow 4 y).const_mul squeezeFactor).const_sub 1).log hrest
  refine (((hasDerivAt_logRest hbelow).const_mul 2).sub hlog).congr_deriv ?_
  rw [marginSlope, marginWeight, mul_div_assoc', mul_div_assoc', div_sub_div _ _ hpos hrest,
    div_eq_div_iff (mul_ne_zero hpos hrest) (mul_ne_zero hrest hpos)]
  push_cast
  ring

theorem exists_marginSlope_eq_zero :
    (∃ m ∈ Set.Icc (-0.87935) (-0.8793), marginSlope m = 0) ∧
      ∃ m ∈ Set.Icc (-0.7015) (-0.7014), marginSlope m = 0 := by
  have hcontinuous : Continuous marginSlope := by
    unfold marginSlope
    fun_prop
  constructor
  · exact intermediate_value_Icc' (by norm_num) hcontinuous.continuousOn
      ⟨by norm_num [marginSlope, squeezeFactor], by norm_num [marginSlope, squeezeFactor]⟩
  · exact intermediate_value_Icc (by norm_num) hcontinuous.continuousOn
      ⟨by norm_num [marginSlope, squeezeFactor], by norm_num [marginSlope, squeezeFactor]⟩

/-- Its two roots are all that the slope has. -/
theorem marginSlope_eq {m n : ℝ} (hm : marginSlope m = 0) (hn : marginSlope n = 0) (hne : m ≠ n) (y : ℝ) :
    marginSlope y =
      squeezeFactor * ((y - m) * (y - n) * (y ^ 2 + (m + n) * y + (m ^ 2 + m * n + n ^ 2))) := by
  have hsum : m ^ 3 + m ^ 2 * n + m * n ^ 2 + n ^ 3 + 2 = 0 := by
    have hproduct : (m - n) * (squeezeFactor * (m ^ 3 + m ^ 2 * n + m * n ^ 2 + n ^ 3 + 2)) = 0 := by
      rw [marginSlope] at hm hn
      linear_combination hm - hn
    have hfactor := (mul_eq_zero.mp hproduct).resolve_left (sub_ne_zero.mpr hne)
    exact (mul_eq_zero.mp hfactor).resolve_left squeezeFactor_pos.ne'
  rw [marginSlope] at hm ⊢
  linear_combination hm + squeezeFactor * (y - m) * hsum

/-- Between its roots the slope is not above zero, and elsewhere not below. -/
theorem marginSlope_sign {m n : ℝ} (hm : marginSlope m = 0) (hn : marginSlope n = 0) (hmn : m < n) (y : ℝ) :
    (m ≤ y → y ≤ n → marginSlope y ≤ 0) ∧ (y ≤ m ∨ n ≤ y → 0 ≤ marginSlope y) := by
  have hquadratic : 0 ≤ y ^ 2 + (m + n) * y + (m ^ 2 + m * n + n ^ 2) := by
    nlinarith [sq_nonneg (y + (m + n) / 2), sq_nonneg (m + n), sq_nonneg (m - n)]
  have hfactor := squeezeFactor_pos.le
  rw [marginSlope_eq hm hn hmn.ne]
  refine ⟨fun hmy hyn => ?_, fun h => mul_nonneg hfactor (mul_nonneg ?_ hquadratic)⟩
  · have hbetween := mul_nonpos_of_nonneg_of_nonpos (sub_nonneg.mpr hmy) (sub_nonpos.mpr hyn)
    exact mul_nonpos_of_nonneg_of_nonpos hfactor (mul_nonpos_of_nonpos_of_nonneg hbetween hquadratic)
  · rcases h with h | h
    · exact mul_nonneg_of_nonpos_of_nonpos (sub_nonpos.mpr h) (sub_nonpos.mpr (h.trans hmn.le))
    · exact mul_nonneg (sub_nonneg.mpr (hmn.le.trans h)) (sub_nonneg.mpr h)

/-- At the root where the margin is smallest the logarithm of the quick test is one of `1 + m`. -/
theorem squeezeMargin_root {m : ℝ} (hm : m ∈ Set.Icc (-0.87935) (-0.8793)) (hzero : marginSlope m = 0) :
    0 ≤ squeezeMargin m := by
  obtain ⟨hlow, hhigh⟩ := hm
  have hpos : 0 < 1 + m := by linarith
  have hquick : 1 - squeezeFactor * m ^ 4 = 2 * squeezeFactor * (1 + m) := by
    rw [marginSlope] at hzero
    linarith
  have hfactor : (0 : ℝ) < 2 * squeezeFactor := mul_pos two_pos squeezeFactor_pos
  have hlog : squeezeMargin m =
      Real.log ((1 + m) / (2 * squeezeFactor)) - 2 * m + m ^ 2 - 2 * m ^ 3 / 3 := by
    rw [squeezeMargin, logRest_eq, hquick, Real.log_mul hfactor.ne' hpos.ne', Real.log_div hpos.ne' hfactor.ne']
    ring
  -- the cubic is taken at the upper end of the interval and the logarithm at its lower end
  have hcubic : 2.9849 ≤ -2 * m + m ^ 2 - 2 * m ^ 3 / 3 := by
    have hroot : 0.8793 ≤ -m := by linarith
    have hsquare : 0.8793 ^ 2 ≤ (-m) ^ 2 := pow_le_pow_left₀ (by norm_num) hroot 2
    have hcube : 0.8793 ^ 3 ≤ (-m) ^ 3 := pow_le_pow_left₀ (by norm_num) hroot 3
    linarith
  have hexp : Real.exp (-2.9849) ≤ (1 + m) / (2 * squeezeFactor) := by
    calc Real.exp (-2.9849) = Real.exp (-1) ^ 3 * Real.exp 0.0151 := by
          rw [← Real.exp_nat_mul, ← Real.exp_add]
          norm_num
      _ ≤ 0.3678794412 ^ 3 * (1 / (1 - 0.0151)) := by
          gcongr
          · exact Real.exp_neg_one_lt_d9.le
          · exact Real.exp_bound_div_one_sub_of_interval (by norm_num) (by norm_num)
      _ ≤ 0.12065 / (2 * squeezeFactor) := by norm_num [squeezeFactor]
      _ ≤ (1 + m) / (2 * squeezeFactor) := by
          gcongr
          linarith
  have hbound := (Real.le_log_iff_exp_le (div_pos hpos hfactor)).mpr hexp
  linarith

/-- **The margin is never below zero.** It falls to the first root of its slope and grows to the second; from
there on it falls to zero and grows again. -/
theorem squeezeMargin_nonneg {y : ℝ} (hy : y ∈ squeezeRange) : 0 ≤ squeezeMargin y := by
  obtain ⟨⟨m, hm, hmzero⟩, n, hn, hnzero⟩ := exists_marginSlope_eq_zero
  have hmn : m < n := by linarith [hm.2, hn.1]
  have hslope := marginSlope_sign hmzero hnzero hmn
  have hneg : n < 0 := by linarith [hn.2]
  -- up to the second root the least value is at the first, behind it the least is at zero
  rcases le_total y n with hyn | hny
  · have hroot : m ∈ squeezeRange := by
      show squeezeFactor * m ^ 4 < 1
      rw [marginSlope] at hmzero
      nlinarith [hm.1, squeezeFactor_pos]
    refine (squeezeMargin_root hm hmzero).trans ?_
    refine le_of_turns (convex_squeezeRange.inter (convex_Iic n)) ⟨hroot, hmn.le⟩
      (fun z hz => hasDerivAt_squeezeMargin hz.1) (fun z hz hzm => ?_) (fun z hz hmz => ?_) ⟨hy, hyn⟩
    · have hsign := mul_nonpos_of_nonpos_of_nonneg (hz.2.trans hneg.le) ((hslope z).2 (.inl hzm.le))
      exact mul_nonpos_of_nonpos_of_nonneg hsign (marginWeight_nonneg hz.1)
    · have hsign := mul_nonneg_of_nonpos_of_nonpos (hz.2.trans hneg.le) ((hslope z).1 hmz.le hz.2)
      exact mul_nonneg hsign (marginWeight_nonneg hz.1)
  · have hzero : squeezeMargin 0 = 0 := by norm_num [squeezeMargin, logRest_eq]
    have hmem : (0 : ℝ) ∈ squeezeRange := by norm_num [squeezeRange]
    rw [← hzero]
    refine le_of_turns (convex_squeezeRange.inter (convex_Ici n)) ⟨hmem, hneg.le⟩
      (fun z hz => hasDerivAt_squeezeMargin hz.1) (fun z hz hz0 => ?_) (fun z hz hz0 => ?_) ⟨hy, hny⟩
    · have hsign := mul_nonpos_of_nonpos_of_nonneg hz0.le ((hslope z).2 (.inr hz.2))
      exact mul_nonpos_of_nonpos_of_nonneg hsign (marginWeight_nonneg hz.1)
    · have hsign := mul_nonneg hz0.le ((hslope z).2 (.inr hz.2))
      exact mul_nonneg hsign (marginWeight_nonneg hz.1)

/-! ## Every shape -/

/-- The right side of the exact test is what the series leaves over, times a factor. -/
theorem exact_eq_logRest {d c : ℝ} (hc : c ^ 2 * (9 * d) = 1) (x : ℝ) :
    x ^ 2 / 2 + d * (1 - (1 + c * x) ^ 3 + Real.log ((1 + c * x) ^ 3)) = 3 * d * logRest (c * x) := by
  rw [logRest_eq, Real.log_pow]
  push_cast
  linear_combination -(x ^ 2 / 2) * hc

theorem squeezeFactor_mul (x : ℝ) : squeezeFactor * (x / √6) ^ 4 = 0.0331 * x ^ 4 := by
  have hpow : √6 ^ 4 = 36 := by
    have hsquare : √6 ^ 2 = 6 := Real.sq_sqrt (by norm_num)
    calc √6 ^ 4 = (√6 ^ 2) ^ 2 := by ring
      _ = 36 := by rw [hsquare]; norm_num
  rw [squeezeFactor, div_pow, hpow]
  ring

/-- For the smallest shape the square is exactly one. -/
theorem sq_mul_sqrt_six {d c : ℝ} (hc : c ^ 2 * (9 * d) = 1) : (c * √6) ^ 2 * (3 * d) = 2 := by
  rw [mul_pow, Real.sq_sqrt (by norm_num)]
  linarith

/-- **The quick test is within the exact one.** The exact test lets least pass for the smallest shape, and
there the margin is not below zero. -/
theorem log_lt_of_squeeze {d c x u : ℝ} (hd : 2 / 3 ≤ d) (hcpos : 0 < c) (hc : c ^ 2 * (9 * d) = 1)
    (hu : 0 < u) (h : u < 1 - 0.0331 * x ^ 4) :
    Real.log u < x ^ 2 / 2 + d * (1 - (1 + c * x) ^ 3 + Real.log ((1 + c * x) ^ 3)) := by
  have hsix : 0 < √6 := Real.sqrt_pos.mpr (by norm_num)
  have hθ : 0 < c * √6 := mul_pos hcpos hsix
  have hscaled : c * √6 * (x / √6) = c * x := by rw [mul_assoc, mul_div_cancel₀ x hsix.ne']
  have hsquare := sq_mul_sqrt_six hc
  have hθ' : c * √6 ≤ 1 := by
    have hone : (c * √6) ^ 2 ≤ 1 := by nlinarith [sq_nonneg (c * √6)]
    exact (sq_le_one_iff₀ hθ.le).mp hone
  -- what the quick test accepts is in the range in which the margin is known
  have hmem : x / √6 ∈ squeezeRange := by
    show squeezeFactor * (x / √6) ^ 4 < 1
    rw [squeezeFactor_mul]
    linarith
  have hmargin := squeezeMargin_nonneg hmem
  rw [squeezeMargin, squeezeFactor_mul] at hmargin
  rw [exact_eq_logRest hc]
  calc Real.log u < Real.log (1 - 0.0331 * x ^ 4) := Real.log_lt_log hu h
    _ ≤ 2 * logRest (x / √6) := by linarith
    _ = 3 * d * ((c * √6) ^ 2 * logRest (x / √6)) := by
        rw [← hsquare]
        ring
    _ ≤ 3 * d * logRest (c * √6 * (x / √6)) := by
        gcongr
        exact sq_mul_logRest_le hθ hθ' (neg_one_lt_of_mem_squeezeRange hmem)
    _ = 3 * d * logRest (c * x) := by rw [hscaled]

namespace GammaShape

theorem of_d (shape : ℝ) : (GammaShape.of shape).d = shape - 1 / 3 := by
  simp [GammaShape.of]

theorem of_c (shape : ℝ) : (GammaShape.of shape).c = 1 / √(9 * (shape - 1 / 3)) := by
  simp only [GammaShape.of, Scalar.ofNat_real, Nat.cast_one, Nat.cast_ofNat]
  rfl

theorem cube_real (g : GammaShape ℝ) (x : ℝ) : g.cube x = (1 + g.c * x) ^ 3 := by
  simp only [cube, Scalar.ofNat_real, Nat.cast_one, Scalar.pow_real]
  exact Real.rpow_natCast _ 3

theorem logAccepts_real (g : GammaShape ℝ) (x v u : ℝ) :
    g.logAccepts x v u = true ↔ Real.log u < x ^ 2 / 2 + g.d * (1 - v + Real.log v) := by
  simp only [logAccepts, Scalar.ofNat_real, Nat.cast_one, Scalar.lt_real, decide_eq_true_eq, Scalar.ofRat_real]
  have hhalf : (((0.5 : ℚ) : ℝ)) * (x * x) = x ^ 2 / 2 := by
    push_cast
    ring
  rw [hhalf]
  rfl

end GammaShape

theorem squeezeAccepts_real (x u : ℝ) : squeezeAccepts x u = true ↔ u < 1 - 0.0331 * x ^ 4 := by
  simp only [squeezeAccepts, Scalar.ofNat_real, Nat.cast_one, Scalar.lt_real, decide_eq_true_eq,
    Scalar.ofRat_real, Scalar.pow_real]
  have hpow : x ^ ((4 : ℕ) : ℝ) = x ^ 4 := Real.rpow_natCast x 4
  rw [hpow]
  norm_num

/-- **The quick test never overrides the exact one.** Whatever it accepts the exact test accepts too, so the
candidates are those of the exact test alone. -/
theorem squeeze_never_overrides {shape d c x v u : ℝ} (hshape : 1 ≤ shape) (hd : d = shape - 1 / 3)
    (hc : c = 1 / √(9 * d)) (hv : v = (1 + c * x) ^ 3) (hu : 0 < u) :
    (u < 1 - 0.0331 * x ^ 4 → Real.log u < x ^ 2 / 2 + d * (1 - v + Real.log v)) ∧
      (squeezeAccepts x u = true → (GammaShape.of shape).logAccepts x v u = true) ∧
      (GammaShape.of shape).candidate x u =
        if 0 < v ∧ (GammaShape.of shape).logAccepts x v u = true then some (d * v) else none := by
  have hpos : 0 < 9 * d := by linarith
  have hsquare : c ^ 2 * (9 * d) = 1 := by
    rw [hc, div_pow, Real.sq_sqrt hpos.le, one_pow]
    exact one_div_mul_cancel hpos.ne'
  have hcpos : 0 < c := hc ▸ one_div_pos.mpr (Real.sqrt_pos.mpr hpos)
  have hreal : u < 1 - 0.0331 * x ^ 4 → Real.log u < x ^ 2 / 2 + d * (1 - v + Real.log v) :=
    fun h => hv ▸ log_lt_of_squeeze (by linarith) hcpos hsquare hu h
  have hd' : (GammaShape.of shape).d = d := (GammaShape.of_d shape).trans hd.symm
  have hcube : (GammaShape.of shape).cube x = v := by
    rw [GammaShape.cube_real, GammaShape.of_c, ← hd, ← hc, hv]
  have htests : squeezeAccepts x u = true → (GammaShape.of shape).logAccepts x v u = true := by
    intro h
    rw [GammaShape.logAccepts_real, hd']
    exact hreal ((squeezeAccepts_real x u).mp h)
  refine ⟨hreal, htests, ?_⟩
  have hiff : (Scalar.isPositive v && (squeezeAccepts x u || (GammaShape.of shape).logAccepts x v u)) = true ↔
      0 < v ∧ (GammaShape.of shape).logAccepts x v u = true := by
    rw [Bool.and_eq_true, Bool.or_eq_true, or_iff_right_of_imp htests, Scalar.isPositive_real,
      decide_eq_true_eq]
  rw [GammaShape.candidate, hcube, hd']
  exact if_congr hiff rfl rfl

/-- Where the two tests are closest, at the smallest shape. -/
theorem squeeze_at_the_narrowest :
    ∃ d c v : ℝ, 1 ≤ (1 : ℝ) ∧ d = 1 - 1 / 3 ∧ c = 1 / √(9 * d) ∧ v = (1 + c * -2.15) ^ 3 ∧ (0 : ℝ) < 0.29 ∧
      squeezeAccepts (-2.15 : ℝ) 0.29 = true ∧ (GammaShape.of (1 : ℝ)).logAccepts (-2.15) v 0.29 = true := by
  have hquick : squeezeAccepts (-2.15 : ℝ) 0.29 = true := by
    rw [squeezeAccepts_real]
    norm_num
  refine ⟨_, _, _, le_rfl, rfl, rfl, rfl, by norm_num, hquick, ?_⟩
  exact (squeeze_never_overrides le_rfl rfl rfl rfl (by norm_num)).2.1 hquick

end Sampler

end Ballpark
