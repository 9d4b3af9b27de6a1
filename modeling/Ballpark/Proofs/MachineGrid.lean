import Ballpark.Binary64
import Ballpark.Proofs.DecimalRounding

/-!
# Numbers of the machine grid

The machine number nearest to a number is a whole number of steps away from zero, the step being the power
of two that leaves 53 bits. Rounding to the grid finds it (`Binary64.isNearest_roundRat`): every larger
number of the grid is a whole number of these steps, and every smaller one is below a number that is. So
a nearest machine number is off by at most one part in `2 ^ 53` (`Binary64.IsNearest.abs_sub_le`).
-/

namespace Ballpark.Binary64

open Decimal

/-- A finite machine number: a whole number of at most 53 bits, times a power of two. -/
def OnGrid (x : ℚ) : Prop :=
  ∃ mantissa power : ℤ, |mantissa| < 2 ^ 53 ∧ -1074 ≤ power ∧ power ≤ 971 ∧ x = mantissa * 2 ^ power

/-- The machine number that is nearest to a number, or one of the two nearest. -/
structure IsNearest (x k : ℚ) : Prop where
  onGrid : OnGrid k
  least : ∀ y, OnGrid y → |k - x| ≤ |y - x|

theorem OnGrid.neg {x : ℚ} (h : OnGrid x) : OnGrid (-x) := by
  obtain ⟨mantissa, power, hbits, hlow, hhigh, rfl⟩ := h
  exact ⟨-mantissa, power, by rwa [abs_neg], hlow, hhigh, by push_cast; ring⟩

theorem IsNearest.neg {x k : ℚ} (h : IsNearest x k) : IsNearest (-x) (-k) where
  onGrid := h.onGrid.neg
  least y hy := by
    have hleast := h.least (-y) hy.neg
    rwa [← abs_neg, neg_sub, neg_sub_neg, ← abs_neg (y - -x), neg_sub, sub_eq_add_neg (-x),
      add_comm (-x), ← sub_eq_add_neg]

theorem cast_twoPow (n : Nat) : (twoPow n : ℚ) = 2 ^ n := by
  rw [twoPow, Nat.pow_eq, Nat.cast_pow, Nat.cast_ofNat]

/-- The power of two below a quotient. -/
theorem floorLog2_spec {num den : Nat} (hnum : 0 < num) (hden : 0 < den) :
    (2 : ℚ) ^ floorLog2 num den ≤ num / den ∧ (num / den : ℚ) < 2 ^ (floorLog2 num den + 1) := by
  have htwo : ∀ e : ℤ, (0 : ℚ) < 2 ^ e := fun e => zpow_pos two_pos e
  have hden' : (0 : ℚ) < den := by exact_mod_cast hden
  have hnumLow : (2 : ℚ) ^ (Nat.log2 num : ℤ) ≤ num := by
    exact_mod_cast Nat.log2_self_le hnum.ne'
  have hnumHigh : (num : ℚ) < 2 ^ ((Nat.log2 num : ℤ) + 1) := by
    exact_mod_cast Nat.lt_log2_self (n := num)
  have hdenLow : (2 : ℚ) ^ (Nat.log2 den : ℤ) ≤ den := by
    exact_mod_cast Nat.log2_self_le hden.ne'
  -- the two logarithms are known by these four bounds only
  have hdenHigh : (den : ℚ) < 2 ^ ((Nat.log2 den : ℤ) + 1) := by
    exact_mod_cast Nat.lt_log2_self (n := den)
  unfold floorLog2
  generalize (Nat.log2 num : ℤ) = a at *
  generalize (Nat.log2 den : ℤ) = b at *
  have hhigh : (num / den : ℚ) < 2 ^ (a - b + 1) := by
    rw [div_lt_iff₀ hden']
    calc (num : ℚ) < 2 ^ (a + 1) := hnumHigh
      _ = 2 ^ (a - b + 1) * 2 ^ b := by rw [← zpow_add₀ two_ne_zero]; congr 1; ring
      _ ≤ 2 ^ (a - b + 1) * den := mul_le_mul_of_nonneg_left hdenLow (htwo _).le
  have hlow : (2 : ℚ) ^ (a - b - 1) ≤ num / den := by
    rw [le_div_iff₀ hden']
    calc (2 : ℚ) ^ (a - b - 1) * den ≤ 2 ^ (a - b - 1) * 2 ^ (b + 1) :=
          mul_le_mul_of_nonneg_left hdenHigh.le (htwo _).le
      _ = 2 ^ a := by rw [← zpow_add₀ two_ne_zero]; congr 1; ring
      _ ≤ num := hnumLow
  -- the test in whole numbers is the comparison with the power in between
  have hfits : (if a - b < 0 then den ≤ num * twoPow (a - b).natAbs
      else den * twoPow (a - b).natAbs ≤ num) ↔ (2 : ℚ) ^ (a - b) ≤ num / den := by
    rw [le_div_iff₀ hden']
    split
    · rename_i hneg
      have hpower : a - b = -((a - b).natAbs : ℤ) := by omega
      conv_rhs => rw [hpower, zpow_neg, zpow_natCast, ← cast_twoPow]
      rw [inv_mul_le_iff₀ (by rw [cast_twoPow]; exact pow_pos two_pos _), mul_comm]
      exact_mod_cast Iff.rfl
    · rename_i hpos
      have hpower : a - b = ((a - b).natAbs : ℤ) := by omega
      conv_rhs => rw [hpower, zpow_natCast, ← cast_twoPow, mul_comm]
      exact_mod_cast Iff.rfl
  dsimp only
  simp only [hfits]
  split
  · exact ⟨‹_›, hhigh⟩
  · exact ⟨hlow, by rw [sub_add_cancel]; exact not_le.mp ‹_›⟩

/-! ## Steps -/

theorem twoZpow_pos (e : ℤ) : (0 : ℚ) < 2 ^ e :=
  zpow_pos two_pos e

/-- The step at a size: as fine as the size's 53rd bit, or as fine as steps can be. -/
structure IsStep (x : ℚ) (power : ℤ) : Prop where
  least : -1074 ≤ power
  greatest : power < 971
  below : x < 2 ^ 53 * 2 ^ power
  fine : power = -1074 ∨ 2 ^ 52 * 2 ^ power ≤ x

/-- Steps up to `2 ^ 53`, itself included, lead to numbers of the grid. -/
theorem onGrid_steps {n power : ℤ} (hleast : -1074 ≤ power) (hgreatest : power < 971)
    (hn : |n| ≤ 2 ^ 53) : OnGrid (n * 2 ^ power) := by
  rcases hn.lt_or_eq with hlt | heq
  · exact ⟨n, power, hlt, hleast, by omega, rfl⟩
  · have hdouble : ∀ m : ℤ, ((2 * m : ℤ) : ℚ) * 2 ^ power = m * 2 ^ (power + 1) := fun m => by
      rw [zpow_add_one₀ two_ne_zero]
      push_cast
      ring
    obtain ⟨m, rfl, hm⟩ : ∃ m : ℤ, n = 2 * m ∧ |m| < 2 ^ 53 := by
      rcases abs_eq_abs.mp (heq.trans (abs_of_pos (by decide : (0 : ℤ) < 2 ^ 53)).symm) with h | h
      · exact ⟨2 ^ 52, h, by decide⟩
      · exact ⟨-2 ^ 52, h, by decide⟩
    exact ⟨m, power + 1, hm, by omega, by omega, hdouble m⟩

namespace IsStep

variable {x : ℚ} {power n : ℤ}

/-- A number of the grid is a whole number of steps, or below the least size with that step. -/
theorem isWhole_or_below (h : IsStep x power) {y : ℚ} (hy : OnGrid y) :
    (∃ m : ℤ, y = m * 2 ^ power) ∨ (y < 2 ^ 52 * 2 ^ power ∧ 2 ^ 52 * 2 ^ power ≤ x) := by
  obtain ⟨mantissa, e, hbits, hlow, -, rfl⟩ := hy
  rcases le_or_gt power e with hge | hlt
  · refine .inl ⟨mantissa * 2 ^ (e - power).toNat, ?_⟩
    have hsplit : e = ((e - power).toNat : ℤ) + power := by omega
    conv_lhs => rw [hsplit, zpow_add₀ two_ne_zero, zpow_natCast]
    push_cast
    ring
  · have hx := h.fine.resolve_left (by omega)
    refine .inr ⟨?_, hx⟩
    have hbits' : (mantissa : ℚ) < 2 ^ 53 := by exact_mod_cast (le_abs_self _).trans_lt hbits
    calc (mantissa : ℚ) * 2 ^ e < 2 ^ 53 * 2 ^ e := mul_lt_mul_of_pos_right hbits' (twoZpow_pos e)
      _ = 2 ^ 52 * 2 ^ (e + 1) := by rw [zpow_add_one₀ two_ne_zero]; ring
      _ ≤ 2 ^ 52 * 2 ^ power := by
        have : (2 : ℚ) ^ (e + 1) ≤ 2 ^ power := zpow_le_zpow_right₀ one_le_two (by omega)
        gcongr

/-- The nearest whole number of steps is as near as any other. -/
theorem nearest_whole (hnear : |n * 2 ^ power - x| ≤ 2 ^ power / 2) (m : ℤ) :
    |n * 2 ^ power - x| ≤ |m * 2 ^ power - x| := by
  rcases eq_or_ne m n with rfl | hne
  · exact le_rfl
  · have hapart : (1 : ℚ) ≤ |(m : ℚ) - n| := by
      exact_mod_cast Int.one_le_abs (sub_ne_zero.mpr hne)
    have hstep : (2 : ℚ) ^ power ≤ |(m : ℚ) * 2 ^ power - n * 2 ^ power| := by
      rw [← sub_mul, abs_mul, abs_of_pos (twoZpow_pos power)]
      exact le_mul_of_one_le_left (twoZpow_pos power).le hapart
    have htriangle := abs_sub_le (m * 2 ^ power : ℚ) x (n * 2 ^ power)
    rw [abs_sub_comm x] at htriangle
    linarith

/-- **The nearest whole number of steps is the nearest machine number.** -/
theorem isNearest (h : IsStep x power) (hx : 0 ≤ x) (hnear : |n * 2 ^ power - x| ≤ 2 ^ power / 2) :
    IsNearest x (n * 2 ^ power) where
  onGrid := by
    -- a whole number at most half a step away is in reach of the mantissa
    have hpos := twoZpow_pos power
    obtain ⟨hlow, hhigh⟩ := abs_le.mp hnear
    have hbelow := h.below
    have hleast : (-1 : ℚ) < n := by
      by_contra hle
      nlinarith [not_lt.mp hle]
    have hmost : (n : ℚ) < 2 ^ 53 + 1 := by
      by_contra hge
      nlinarith [not_lt.mp hge]
    have hleast' : (-1 : ℤ) < n := by exact_mod_cast hleast
    have hmost' : n < 2 ^ 53 + 1 := by exact_mod_cast hmost
    exact onGrid_steps h.least h.greatest (abs_le.mpr ⟨by omega, by omega⟩)
  least y hy := by
    -- a number of the grid is a whole number of steps, or so small that the smallest mantissa is nearer
    rcases h.isWhole_or_below hy with ⟨m, rfl⟩ | ⟨hbelow, hfine⟩
    · exact nearest_whole hnear m
    · calc |n * 2 ^ power - x| ≤ |((2 ^ 52 : ℤ) : ℚ) * 2 ^ power - x| := nearest_whole hnear (2 ^ 52)
        _ = x - 2 ^ 52 * 2 ^ power := by
          rw [abs_sub_comm, Int.cast_pow, Int.cast_ofNat, abs_of_nonneg (by linarith)]
        _ ≤ |y - x| := by
          rw [abs_sub_comm]
          exact (by linarith : _ ≤ x - y).trans (le_abs_self _)

end IsStep

/-! ## Rounding to the grid -/

theorem Point.value_eq (p : Point) : p.value = p.mantissa * 2 ^ p.power := by
  unfold Point.value
  split
  · rename_i hneg
    have hpower : p.power = -(p.power.natAbs : ℤ) := by omega
    conv_rhs => rw [hpower, zpow_neg, zpow_natCast]
    rw [Rat.mkRat_eq_div, Int.cast_natCast, cast_twoPow, div_eq_mul_inv]
  · rename_i hpos
    have hpower : p.power = (p.power.natAbs : ℤ) := by omega
    conv_rhs => rw [hpower, zpow_natCast]
    rw [Nat.cast_mul, cast_twoPow]

/-- The quotient that is rounded to the mantissa is the size in steps. -/
theorem abs_mantissa_sub_le {x : ℚ} (num : ℕ) {den : ℕ} (hden : 0 < den) (hx : x = num / den)
    (power : ℤ) :
    |((if power < 0 then roundDiv (num * twoPow power.natAbs) den
        else roundDiv num (den * twoPow power.natAbs) : ℕ) : ℚ) * 2 ^ power - x| ≤ 2 ^ power / 2 := by
  have hpos := twoZpow_pos power
  -- either way a whole quotient is rounded, and it is the size in steps
  obtain ⟨top, bottom, hbottom, hround, hquotient⟩ : ∃ top bottom : ℕ, 0 < bottom ∧
      (if power < 0 then roundDiv (num * twoPow power.natAbs) den
        else roundDiv num (den * twoPow power.natAbs)) = roundDiv top bottom ∧
      (top / bottom : ℚ) * 2 ^ power = x := by
    split
    · rename_i hneg
      have hpower : power = -(power.natAbs : ℤ) := by omega
      refine ⟨_, _, hden, rfl, ?_⟩
      conv_lhs => rw [hpower, zpow_neg, zpow_natCast, Int.natAbs_neg, Int.natAbs_natCast]
      rw [Nat.cast_mul, cast_twoPow, hx]
      field_simp
    · rename_i hnonneg
      have hpower : power = (power.natAbs : ℤ) := by omega
      refine ⟨_, den * twoPow power.natAbs, Nat.mul_pos hden (Nat.pow_pos two_pos), rfl, ?_⟩
      conv_lhs => rw [hpower, zpow_natCast, Int.natAbs_natCast]
      rw [Nat.cast_mul, cast_twoPow, hx]
      field_simp
  rw [hround, ← hquotient, ← sub_mul, abs_mul, abs_of_pos hpos]
  calc |(roundDiv top bottom : ℚ) - top / bottom| * 2 ^ power ≤ 1 / 2 * 2 ^ power := by
        gcongr
        exact abs_roundDiv_sub_le top hbottom
    _ = 2 ^ power / 2 := by ring

/-- Rounding finds the step at a size, and a whole number of steps at most half a step away. -/
theorem nearest_spec {x : ℚ} (hx : 0 < x) (hhigh : x < 2 ^ 1023) :
    IsStep x (nearest x).power ∧
      |((nearest x).mantissa : ℚ) * 2 ^ (nearest x).power - x| ≤ 2 ^ (nearest x).power / 2 := by
  have hnum : 0 < x.num.natAbs := Int.natAbs_pos.mpr (Rat.num_pos.mpr hx).ne'
  have hquotient : x = x.num.natAbs / x.den := by
    conv_lhs => rw [← Rat.num_div_den x, ← Int.natAbs_of_nonneg (Rat.num_pos.mpr hx).le]
    rw [Int.cast_natCast]
  obtain ⟨hlow, hlt⟩ := floorLog2_spec hnum x.den_pos
  rw [← hquotient] at hlow hlt
  rw [nearest, if_neg (by simpa using hnum.ne')]
  set e := floorLog2 x.num.natAbs x.den with he
  -- the step is that of the size, but no finer than the finest
  refine ⟨⟨le_max_right _ _, ?_, ?_, ?_⟩, abs_mantissa_sub_le _ x.den_pos hquotient _⟩
  · have : (2 : ℚ) ^ e < 2 ^ (1023 : ℤ) := by exact_mod_cast hlow.trans_lt hhigh
    have := (zpow_lt_zpow_iff_right₀ one_lt_two).mp this
    show max (e - 52) (-1074) < 971
    omega
  · calc x < 2 ^ (e + 1) := hlt
      _ ≤ 2 ^ (53 + max (e - 52) (-1074)) := zpow_le_zpow_right₀ one_le_two (by omega)
      _ = 2 ^ 53 * 2 ^ max (e - 52) (-1074) := by rw [zpow_add₀ two_ne_zero]; norm_cast
  · show max (e - 52) (-1074) = -1074 ∨ 2 ^ 52 * (2 : ℚ) ^ max (e - 52) (-1074) ≤ x
    rcases le_total (e - 52) (-1074) with h | h
    · exact .inl (max_eq_right h)
    · refine .inr (hlow.trans' (le_of_eq ?_))
      rw [max_eq_left h, zpow_sub₀ two_ne_zero]
      field_simp

/-- **Rounding gives the nearest machine number.** -/
theorem isNearest_roundRat {x : ℚ} (hx : 0 < x) (hhigh : x < 2 ^ 1023) : IsNearest x (roundRat x) := by
  obtain ⟨hstep, hnear⟩ := nearest_spec hx hhigh
  rw [roundRat, Point.value_eq]
  exact_mod_cast hstep.isNearest hx.le hnear

/-- **A nearest machine number is off by at most one part in `2 ^ 53`**, unless the number is as small as
the least that has all 53 bits. -/
theorem IsNearest.abs_sub_le {x k : ℚ} (h : IsNearest x k) (hlow : 2 ^ (-1022 : ℤ) ≤ |x|)
    (hhigh : |x| < 2 ^ 1023) : |k - x| ≤ |x| / 2 ^ 53 := by
  wlog hpos : 0 < x generalizing x k
  · have hne : x ≠ 0 := abs_pos.mp ((twoZpow_pos _).trans_le hlow)
    have hneg := this h.neg (by rwa [abs_neg]) (by rwa [abs_neg])
      (neg_pos.mpr (lt_of_le_of_ne (not_lt.mp hpos) hne))
    rwa [abs_neg, neg_sub_neg, abs_sub_comm] at hneg
  rw [abs_of_pos hpos] at hlow hhigh ⊢
  obtain ⟨hstep, hnear⟩ := nearest_spec hpos hhigh
  have hfine : 2 ^ 52 * (2 : ℚ) ^ (nearest x).power ≤ x := by
    refine hstep.fine.elim (fun heq => hlow.trans' (le_of_eq ?_)) id
    calc (2 : ℚ) ^ 52 * 2 ^ (nearest x).power = 2 ^ ((52 : ℤ) + -1074) := by
          rw [heq, zpow_add₀ two_ne_zero]
          norm_cast
      _ = 2 ^ (-1022 : ℤ) := by congr 1
  calc |k - x| ≤ |((nearest x).mantissa : ℚ) * 2 ^ (nearest x).power - x| := by
        exact_mod_cast h.least _ (hstep.isNearest hpos.le hnear).onGrid
    _ ≤ 2 ^ (nearest x).power / 2 := hnear
    _ ≤ x / 2 ^ 53 := by linarith

end Ballpark.Binary64
