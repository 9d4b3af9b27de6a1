import Ballpark.Exponent
import Mathlib.Algebra.Order.Field.Basic
import Mathlib.Algebra.Order.Ring.Abs
import Mathlib.Data.Rat.Cast.Order
import Mathlib.Tactic.Ring

/-!
# Nearest fractions

Snapping gives a fraction with a denominator within the bound, and none of these is nearer
(`Exponent.limitDenominator_nearest`). The way along the continued fraction keeps two convergents that the
number lies between, with a determinant of one (`Walk`). Where it ends, the last convergent and the
fraction between the last two are neighbours (`Neighbours`): each fraction strictly between them has at
least the sum of their denominators, which is beyond the bound. So every other fraction within the bound
lies beyond one of the two.

The numbers that snapping leaves alone are thus exactly the fractions within the bound
(`Exponent.snap_eq_self_iff`).
-/

namespace Ballpark.Exponent

/-- The determinant of two convergents. -/
def Convergent.det (c d : Convergent) : Int :=
  c.num * d.den - d.num * c.den

theorem Convergent.value_eq (c : Convergent) : c.value = (c.num : Rat) / c.den :=
  Rat.mkRat_eq_div ..

theorem Convergent.den_value_le {c : Convergent} {bound : Nat} (hbound : 0 < bound)
    (h : c.den ≤ bound) : c.value.den ≤ bound := by
  rw [value, Rat.den_mkRat]
  split
  · exact hbound
  · exact (Nat.div_le_self _ _).trans h

/-! ## Neighbours -/

/-- Two fractions within the bound on either side of `x`: it is made of them with weights that are not
negative, and nothing within the bound is strictly between them. -/
structure Neighbours (bound : Nat) (x : Rat) (c d : Convergent) (m n : Int) : Prop where
  left_pos : 0 < c.den
  right_pos : 0 < d.den
  left_le : c.den ≤ bound
  right_le : d.den ≤ bound
  beyond : bound < c.den + d.den
  det : c.det d = 1 ∨ c.det d = -1
  weight_left : 0 ≤ m
  weight_right : 0 ≤ n
  num_eq : x.num = m * c.num + n * d.num
  den_eq : (x.den : Int) = m * c.den + n * d.den

namespace Neighbours

variable {bound : Nat} {x : Rat} {c d : Convergent} {m n : Int}

theorem swap (h : Neighbours bound x c d m n) : Neighbours bound x d c n m where
  left_pos := h.right_pos
  right_pos := h.left_pos
  left_le := h.right_le
  right_le := h.left_le
  beyond := by
    rw [add_comm]
    exact h.beyond
  det := by
    have hswap : d.det c = -c.det d := by simp [Convergent.det]
    rcases h.det with hdet | hdet
    · exact .inr (by rw [hswap, hdet])
    · exact .inl (by rw [hswap, hdet, neg_neg])
  weight_left := h.weight_right
  weight_right := h.weight_left
  num_eq := by rw [h.num_eq, add_comm]
  den_eq := by rw [h.den_eq, add_comm]

theorem det_mul_self (h : Neighbours bound x c d m n) : c.det d * c.det d = 1 := by
  rcases h.det with hdet | hdet
  · rw [hdet, mul_one]
  · rw [hdet, neg_mul_neg, mul_one]

theorem abs_det (h : Neighbours bound x c d m n) : |(c.det d : Rat)| = 1 := by
  rcases h.det with hdet | hdet
  · rw [hdet, Int.cast_one, abs_one]
  · rw [hdet, Int.cast_neg, Int.cast_one, abs_neg, abs_one]

/-- Every fraction is made of two neighbours, with whole weights. -/
theorem exists_weights (h : Neighbours bound x c d m n) (e : Convergent) :
    ∃ s t : Int, e.num = s * c.num + t * d.num ∧ (e.den : Int) = s * c.den + t * d.den := by
  have hdet := h.det_mul_self
  refine ⟨c.det d * e.det d, c.det d * c.det e, ?_, ?_⟩
  · calc
      e.num = c.det d * c.det d * e.num := by rw [hdet, one_mul]
      _ = c.det d * (e.det d * c.num + c.det e * d.num) := by
        simp only [Convergent.det]
        ring
      _ = _ := by ring
  · calc
      (e.den : Int) = c.det d * c.det d * e.den := by rw [hdet, one_mul]
      _ = c.det d * (e.det d * c.den + c.det e * d.den) := by
        simp only [Convergent.det]
        ring
      _ = _ := by ring

/-- How far a fraction is from `x`, by its weights. -/
theorem abs_value_sub (h : Neighbours bound x c d m n) {e : Convergent} {s t : Int} (he : 0 < e.den)
    (hnum : e.num = s * c.num + t * d.num) (hden : (e.den : Int) = s * c.den + t * d.den) :
    |e.value - x| = (|s * n - t * m| : Int) / (e.den * x.den) := by
  have hepos : (0 : Rat) < e.den := by exact_mod_cast he
  have hxpos : (0 : Rat) < x.den := by exact_mod_cast x.den_pos
  have hcross : e.num * x.den - e.den * x.num = c.det d * (s * n - t * m) := by
    rw [hnum, hden, h.num_eq, h.den_eq, Convergent.det]
    ring
  have hdifference : e.value - x = (c.det d * (s * n - t * m) : Int) / (e.den * x.den) := by
    nth_rewrite 1 [← Rat.num_div_den x]
    rw [e.value_eq, div_sub_div _ _ hepos.ne' hxpos.ne', ← hcross]
    push_cast
    rfl
  rw [hdifference, abs_div, abs_of_pos (mul_pos hepos hxpos), Int.cast_mul, abs_mul, h.abs_det, one_mul,
    Int.cast_abs]

/-- What lies beyond the first neighbour is not nearer than it. -/
theorem left_nearer (h : Neighbours bound x c d m n) {e : Convergent} {s t : Int} (he : 0 < e.den)
    (ht : t ≤ 0) (hnum : e.num = s * c.num + t * d.num)
    (hden : (e.den : Int) = s * c.den + t * d.den) : |c.value - x| ≤ |e.value - x| := by
  have hc : (0 : Int) < c.den := by exact_mod_cast h.left_pos
  have hother : t * d.den ≤ 0 := mul_nonpos_of_nonpos_of_nonneg ht (Int.natCast_nonneg _)
  have hback : t * m ≤ 0 := mul_nonpos_of_nonpos_of_nonneg ht h.weight_left
  have hlong : (e.den : Int) ≤ s * c.den := by omega
  -- both distances by their weights, which are one and zero for the neighbour itself
  rw [h.abs_value_sub h.left_pos (s := 1) (t := 0) (by ring) (by ring), h.abs_value_sub he hnum hden]
  have hgap : n * e.den ≤ |s * n - t * m| * c.den :=
    calc
      n * e.den ≤ n * (s * c.den) := mul_le_mul_of_nonneg_left hlong h.weight_right
      _ = s * n * c.den := by ring
      _ ≤ |s * n - t * m| * c.den :=
        mul_le_mul_of_nonneg_right ((by omega : s * n ≤ s * n - t * m).trans (le_abs_self _)) hc.le
  have hxpos : (0 : Rat) < x.den := by exact_mod_cast x.den_pos
  have hcpos : (0 : Rat) < c.den := by exact_mod_cast h.left_pos
  have hepos : (0 : Rat) < e.den := by exact_mod_cast he
  rw [one_mul, zero_mul, sub_zero, abs_of_nonneg h.weight_right, ← div_div, ← div_div]
  refine div_le_div_of_nonneg_right ((div_le_div_iff₀ hcpos hepos).mpr ?_) hxpos.le
  exact_mod_cast hgap

/-- **Nothing within the bound is nearer than both neighbours.** -/
theorem nearest (h : Neighbours bound x c d m n) {y : Rat} (hy : y.den ≤ bound) :
    |c.value - x| ≤ |y - x| ∨ |d.value - x| ≤ |y - x| := by
  let e : Convergent := ⟨y.num, y.den⟩
  have hvalue : e.value = y := Rat.mkRat_self y
  have he : 0 < e.den := y.den_pos
  obtain ⟨s, t, hnum, hden⟩ := h.exists_weights e
  rw [← hvalue]
  rcases le_or_gt t 0 with ht | ht
  · exact .inl (h.left_nearer he ht hnum hden)
  rcases le_or_gt s 0 with hs | hs
  · exact .inr (h.swap.left_nearer he hs (by rw [hnum, add_comm]) (by rw [hden, add_comm]))
  · -- with both weights positive the denominator is at least the sum of the two
    have hfirst : (c.den : Int) ≤ s * c.den := le_mul_of_one_le_left (Int.natCast_nonneg _) hs
    have hsecond : (d.den : Int) ≤ t * d.den := le_mul_of_one_le_left (Int.natCast_nonneg _) ht
    have hbeyond := h.beyond
    have hbound : e.den ≤ bound := hy
    omega

end Neighbours

/-! ## The way along the continued fraction -/

/-- What is kept on the way: `x` is made of the last two convergents, weighted by what is left of the
fraction, and their determinant is one or its opposite. -/
structure Walk (bound : Nat) (x : Rat) (before last : Convergent) (num : Int) (den : Nat) : Prop where
  before_le : before.den ≤ bound
  last_le : last.den ≤ bound
  det : last.det before = 1 ∨ last.det before = -1
  rest : last.den = 0 ∨ 0 ≤ num
  num_eq : x.num = num * last.num + den * before.num
  den_eq : (x.den : Int) = num * last.den + den * before.den

namespace Walk

variable {bound : Nat} {x : Rat} {before last : Convergent} {num : Int} {den : Nat}

theorem start (hbound : 0 < bound) (x : Rat) : Walk bound x ⟨0, 1⟩ ⟨1, 0⟩ x.num x.den where
  before_le := hbound
  last_le := Nat.zero_le _
  det := .inl (by simp [Convergent.det])
  rest := .inl rfl
  num_eq := by simp
  den_eq := by simp

/-- The whole part of what is left, as far as it counts. -/
theorem toNat_mul (h : Walk bound x before last num den) :
    ((num / den).toNat * last.den : Int) = num / den * last.den := by
  rcases h.rest with hzero | hnum
  · simp [hzero]
  · rw [Int.toNat_of_nonneg (Int.ediv_nonneg hnum (Int.natCast_nonneg _))]

/-- One more convergent. -/
theorem step (h : Walk bound x before last num den) (hden : den ≠ 0)
    (hnext : before.den + (num / den).toNat * last.den ≤ bound) :
    Walk bound x last ⟨before.num + num / den * last.num, before.den + (num / den).toNat * last.den⟩
      den (num % den).toNat := by
  have hden' : (den : Int) ≠ 0 := by exact_mod_cast hden
  have hrest : ((num % den).toNat : Int) = num - num / den * den := by
    rw [Int.toNat_of_nonneg (Int.emod_nonneg num hden'), Int.emod_def, mul_comm]
  have hcast : ((before.den + (num / den).toNat * last.den : Nat) : Int) =
      before.den + num / den * last.den := by
    rw [← h.toNat_mul]
    push_cast
    rfl
  refine ⟨h.last_le, hnext, ?_, .inr (Int.natCast_nonneg _), ?_, ?_⟩
  · -- the determinant changes its sign
    have hdet : Convergent.det ⟨before.num + num / den * last.num,
        before.den + (num / den).toNat * last.den⟩ last = -last.det before := by
      rw [Convergent.det, hcast, Convergent.det]
      ring
    rw [hdet]
    rcases h.det with hone | hone
    · exact .inr (by rw [hone])
    · exact .inl (by rw [hone, neg_neg])
  · rw [h.num_eq, hrest]
    ring
  · rw [h.den_eq, hrest, hcast]
    ring

/-- The way does not reach a fraction that is beyond the bound. -/
theorem den_ne_zero (h : Walk bound x before last num den) (hx : bound < x.den) : den ≠ 0 := by
  rintro rfl
  have hnum : x.num = num * last.num := by simpa using h.num_eq
  have hden : (x.den : Int) = num * last.den := by simpa using h.den_eq
  -- what is left divides numerator and denominator, so it is one
  have hunit : num.natAbs = 1 := by
    have hdvd : num.natAbs ∣ x.den := by
      have habs : num.natAbs ∣ (x.den : Int).natAbs := Int.natAbs_dvd_natAbs.mpr ⟨_, hden⟩
      rwa [Int.natAbs_natCast] at habs
    have hgcd := Nat.dvd_gcd (Int.natAbs_dvd_natAbs.mpr ⟨_, hnum⟩) hdvd
    rw [x.reduced] at hgcd
    exact Nat.dvd_one.mp hgcd
  have hlast : x.den = last.den := by
    have habs := congrArg Int.natAbs hden
    rwa [Int.natAbs_natCast, Int.natAbs_mul, hunit, one_mul, Int.natAbs_natCast] at habs
  exact absurd h.last_le (by omega)

/-- Where the next convergent is beyond the bound, the last one has a neighbour between it and the one
before. -/
theorem neighbours (h : Walk bound x before last num den) (hden : den ≠ 0)
    (hnext : bound < before.den + (num / den).toNat * last.den) :
    let k := (bound - before.den) / last.den
    Neighbours bound x last ⟨before.num + k * last.num, before.den + k * last.den⟩ (num - k * den)
      den := by
  intro k
  have hbefore := h.before_le
  have hlast := h.last_le
  have hpos : 0 < last.den := by
    rcases Nat.eq_zero_or_pos last.den with hzero | hpos
    · rw [hzero, mul_zero, add_zero] at hnext
      omega
    · exact hpos
  have hbelow : k * last.den ≤ bound - before.den := Nat.div_mul_le_self _ _
  have habove : bound - before.den < k * last.den + last.den := Nat.lt_div_mul_add hpos
  -- fewer steps than the continued fraction takes
  have hk : (k : Int) ≤ num / den := by
    have hless : k < (num / den).toNat := by
      refine Nat.lt_of_mul_lt_mul_right (a := last.den) ?_
      omega
    exact (Int.lt_toNat.mp hless).le
  have hweight : (k : Int) * den ≤ num :=
    (mul_le_mul_of_nonneg_right hk (Int.natCast_nonneg _)).trans
      (Int.ediv_mul_le num (by exact_mod_cast hden))
  have hdet : last.det ⟨before.num + k * last.num, before.den + k * last.den⟩ = last.det before := by
    simp only [Convergent.det]
    push_cast
    ring
  refine ⟨hpos, ?_, hlast, ?_, ?_, hdet ▸ h.det, by omega, Int.natCast_nonneg _, ?_, ?_⟩
  · change 0 < before.den + k * last.den
    omega
  · change before.den + k * last.den ≤ bound
    omega
  · change bound < last.den + (before.den + k * last.den)
    omega
  · rw [h.num_eq]
    ring
  · rw [h.den_eq]
    push_cast
    ring

/-- **The way ends where the next convergent is beyond the bound.** -/
theorem convergents_spec (h : Walk bound x before last num den) (hx : bound < x.den) :
    ∃ num' den', Walk bound x (convergents bound before last num den).1
        (convergents bound before last num den).2 num' den' ∧
      bound < (convergents bound before last num den).1.den +
        (num' / den').toNat * (convergents bound before last num den).2.den := by
  fun_induction convergents bound before last num den with
  | case1 before last num => exact absurd rfl (h.den_ne_zero hx)
  | case2 before last num den hden step next hnext => exact ⟨num, den, h, hnext⟩
  | case3 before last num den hden step next hnext ih => exact ih (h.step hden (not_lt.mp hnext))

end Walk

/-! ## Snapping -/

theorem abs_eq (x : Rat) : x.abs = |x| := by
  rw [Rat.abs]
  split
  · rename_i h
    exact (abs_of_nonneg h).symm
  · rename_i h
    exact (abs_of_neg (not_le.mp h)).symm

/-- **A nearest fraction**: its denominator is within the bound, and no fraction within the bound is
nearer. -/
theorem limitDenominator_nearest {bound : Nat} (hbound : 0 < bound) (x : Rat) :
    (limitDenominator bound x).den ≤ bound ∧
      ∀ y : Rat, y.den ≤ bound → |limitDenominator bound x - x| ≤ |y - x| := by
  rw [limitDenominator]
  split
  · rename_i hx
    exact ⟨hx, fun y _ => by rw [sub_self, abs_zero]; exact abs_nonneg _⟩
  · rename_i hx
    obtain ⟨num, den, hwalk, hnext⟩ := (Walk.start hbound x).convergents_spec (not_le.mp hx)
    have h := hwalk.neighbours (hwalk.den_ne_zero (not_le.mp hx)) hnext
    simp only [abs_eq]
    split
    · rename_i hle
      exact ⟨Convergent.den_value_le hbound h.left_le,
        fun y hy => (h.nearest hy).elim id hle.trans⟩
    · rename_i hlt
      exact ⟨Convergent.den_value_le hbound h.right_le,
        fun y hy => (h.nearest hy).elim (not_le.mp hlt).le.trans id⟩

theorem snap_den_le (x : Rat) : (snap x).den ≤ maxDenominator :=
  (limitDenominator_nearest (by decide) x).1

/-- No fraction with a denominator of at most one thousand is nearer. -/
theorem snap_nearest (x : Rat) {y : Rat} (hy : y.den ≤ maxDenominator) : |snap x - x| ≤ |y - x| :=
  (limitDenominator_nearest (by decide) x).2 y hy

/-- **What snapping leaves alone**: the fractions within the bound. -/
theorem snap_eq_self_iff {x : Rat} : snap x = x ↔ x.den ≤ maxDenominator := by
  constructor
  · intro h
    rw [← h]
    exact snap_den_le x
  · intro h
    rw [snap, limitDenominator, if_pos h]

end Ballpark.Exponent
