import Ballpark.Proofs.CanonicalOperations
import Ballpark.Proofs.MachineGrid
import Ballpark.Proofs.Snapping

/-!
# Roots and powers undo each other

A third is no machine number, so the exponent of a cube root is snapped to the fraction that was meant.
Two fractions that differ are apart by one over the product of their denominators, and a machine number
is too near its fraction for another one to come between (`Exponent.snap_of_isNearest`). So a root has
exactly the powers it should have, and the matching power leads back to the unit that it was taken of, its
factors in the order they were in (`CompoundUnit.pow_pow_inverse`): an exponent below zero swaps the
factors above the line with those below it, and the next one swaps them back.
-/

namespace Ballpark

/-! ## Exponents -/

namespace Exponent

/-- Two fractions that differ are apart by one over the product of their denominators. -/
theorem one_le_abs_sub_mul_den {x y : ℚ} (h : x ≠ y) : 1 ≤ |x - y| * (x.den * y.den) := by
  have hx : (0 : ℚ) < x.den := by exact_mod_cast x.den_pos
  have hy : (0 : ℚ) < y.den := by exact_mod_cast y.den_pos
  have hcross : (x - y) * (x.den * y.den) = ((x.num * y.den - y.num * x.den : ℤ) : ℚ) := by
    push_cast
    rw [← Rat.mul_den_eq_num x, ← Rat.mul_den_eq_num y]
    ring
  have hne : x.num * y.den - y.num * x.den ≠ 0 := by
    intro hzero
    rw [hzero, Int.cast_zero] at hcross
    exact h (sub_eq_zero.mp ((mul_eq_zero.mp hcross).resolve_right (mul_pos hx hy).ne'))
  calc (1 : ℚ) ≤ |((x.num * y.den - y.num * x.den : ℤ) : ℚ)| := by exact_mod_cast Int.one_le_abs hne
    _ = |x - y| * (x.den * y.den) := by rw [← hcross, abs_mul, abs_of_pos (mul_pos hx hy)]

/-- A number that is near enough to a fraction within the bound is snapped to it. -/
theorem snap_of_near {x a : ℚ} (hx : x.den ≤ maxDenominator)
    (hnear : 2 * |a - x| * maxDenominator ^ 2 < 1) : snap a = x := by
  by_contra hne
  have hden : ((snap a).den : ℚ) * x.den ≤ maxDenominator ^ 2 := by
    rw [sq]
    exact_mod_cast Nat.mul_le_mul (snap_den_le a) hx
  have hapart : |snap a - x| ≤ 2 * |a - x| := by
    have hsnapped := snap_nearest a hx
    have htriangle := abs_sub_le (snap a) a x
    rw [abs_sub_comm x] at hsnapped
    linarith
  have hone : (1 : ℚ) ≤ 2 * |a - x| * maxDenominator ^ 2 :=
    calc (1 : ℚ) ≤ |snap a - x| * ((snap a).den * x.den) := one_le_abs_sub_mul_den hne
      _ ≤ 2 * |a - x| * maxDenominator ^ 2 := by gcongr
  exact hone.not_gt hnear

/-- What is not above the bound is far from the end of the machine's range. -/
theorem lt_range {x : ℚ} (h : x ≤ maxDenominator) : x < 2 ^ 1023 :=
  calc x ≤ maxDenominator := h
    _ < 2 ^ 10 := by rw [maxDenominator]; norm_num
    _ ≤ 2 ^ 1023 := pow_le_pow_right₀ one_le_two (by decide)

/-- **The machine number nearest to a fraction is snapped to that fraction**, for a fraction within the
bound that is not zero and no larger than the bound. -/
theorem snap_of_isNearest {x a : ℚ} (hnearest : Binary64.IsNearest x a) (hx : x.den ≤ maxDenominator)
    (hne : x ≠ 0) (hle : |x| ≤ maxDenominator) : snap a = x := by
  have hden : (x.den : ℚ) ≤ maxDenominator := by exact_mod_cast hx
  have hlow : 1 ≤ |x| * maxDenominator := by
    have hone := one_le_abs_sub_mul_den hne
    rw [sub_zero, Rat.den_zero, Nat.cast_one, mul_one] at hone
    exact hone.trans (mul_le_mul_of_nonneg_left hden (abs_nonneg x))
  have herror : |a - x| ≤ |x| / 2 ^ 53 := by
    refine hnearest.abs_sub_le ?_ (lt_range hle)
    rw [maxDenominator, Nat.cast_ofNat] at hlow
    calc (2 : ℚ) ^ (-1022 : ℤ) ≤ 2 ^ (-10 : ℤ) := zpow_le_zpow_right₀ one_le_two (by decide)
      _ ≤ 1 / 1000 := by norm_num
      _ ≤ |x| := by linarith
  refine snap_of_near hx ?_
  calc 2 * |a - x| * maxDenominator ^ 2 ≤ 2 * (maxDenominator / 2 ^ 53) * maxDenominator ^ 2 := by
        gcongr
        exact herror.trans (by gcongr)
    _ < 1 := by rw [maxDenominator]; norm_num

/-- A number that stands for the machine number nearest to a fraction. -/
structure IsNearest {R : Type} [Scalar R] (k : R) (x : ℚ) : Prop where
  finite : Scalar.isFinite k = true
  nearest : ∃ a, (Scalar.exact k).toRat? = some a ∧ Binary64.IsNearest x a

/-- A fraction that can be an exponent, and its inverse too. -/
structure IsInvertible (x : ℚ) : Prop where
  ne_zero : x ≠ 0
  den_le : x.den ≤ maxDenominator
  num_le : x.num.natAbs ≤ maxDenominator

theorem isInvertible_div {p q : ℤ} (hp : p ≠ 0) (hq : q ≠ 0) (hpBound : |p| ≤ maxDenominator)
    (hqBound : |q| ≤ maxDenominator) : IsInvertible (p / q : ℚ) where
  ne_zero := div_ne_zero (by exact_mod_cast hp) (by exact_mod_cast hq)
  den_le := by
    rw [Int.abs_eq_natAbs, Nat.cast_le] at hqBound
    rw [← Rat.divInt_eq_div]
    have hdvd := Int.natAbs_dvd_natAbs.mpr (Rat.den_dvd p q)
    rw [Int.natAbs_natCast] at hdvd
    exact (Nat.le_of_dvd (Int.natAbs_pos.mpr hq) hdvd).trans hqBound
  num_le := by
    rw [Int.abs_eq_natAbs, Nat.cast_le] at hpBound
    rw [← Rat.divInt_eq_div]
    have hdvd := Int.natAbs_dvd_natAbs.mpr (Rat.num_dvd p hq)
    exact (Nat.le_of_dvd (Int.natAbs_pos.mpr hp) hdvd).trans hpBound

/-- A machine number that was meant for a fraction is used as that fraction. -/
theorem IsNearest.ofScalar {R : Type} [Scalar R] {k : R} {x : ℚ} (hk : IsNearest k x)
    (hx : IsInvertible x) : Exponent.ofScalar k = .ok x := by
  obtain ⟨a, hexact, hnearest⟩ := hk.nearest
  have hle : |x| ≤ maxDenominator :=
    calc |x| = |(x.num : ℚ)| / x.den := by
          conv_lhs => rw [← Rat.num_div_den x]
          rw [abs_div, Nat.abs_cast]
      _ ≤ |(x.num : ℚ)| := div_le_self (abs_nonneg _) (by exact_mod_cast x.den_pos)
      _ ≤ maxDenominator := by
        rw [← Int.cast_abs, Int.abs_eq_natAbs, Int.cast_natCast]
        exact_mod_cast hx.num_le
  have hsnap := snap_of_isNearest hnearest hx.den_le hx.ne_zero hle
  unfold Exponent.ofScalar
  cases hvalue : Scalar.exact k with
  | undefined => rw [hvalue] at hexact; cases hexact
  | infinite negative => rw [hvalue] at hexact; cases hexact
  | finite negative magnitude =>
    rw [hvalue] at hexact
    rw [← Option.some.inj hexact] at hsnap
    exact congrArg Except.ok hsnap

theorem isNearest_ratCast {x a : ℚ} (h : Binary64.IsNearest x a) : IsNearest (a : ℝ) x where
  finite := rfl
  nearest := by
    refine ⟨a, ?_, h⟩
    rw [Scalar.exact_ratCast]
    by_cases hneg : a < 0
    · simp [Exact.toRat?, hneg, abs_of_neg hneg]
    · simp [Exact.toRat?, hneg, abs_of_nonneg (not_lt.mp hneg)]

end Exponent

/-! ## Units -/

namespace CompoundUnit

variable {R : Type}

/-- Factors with their powers multiplied. -/
def scaled (r : ℚ) (ts : List (UnitTerm R)) : List (UnitTerm R) :=
  ts.map fun t => { t with power := t.power * r }

theorem scaled_inverse {r : ℚ} (hr : r ≠ 0) (ts : List (UnitTerm R)) :
    scaled r⁻¹ (scaled r ts) = ts := by
  rw [scaled, scaled, List.map_map]
  exact List.map_id'' (fun t => by simp [hr]) ts

/-- An exponent above zero keeps the order of the factors. -/
theorem ordered_scaled_of_pos {r : ℚ} (hr : 0 < r) (ts : List (UnitTerm R)) :
    ordered (scaled r ts) = scaled r (ordered ts) := by
  simp only [ordered, scaled, List.filter_map, List.map_append, Function.comp_def, mul_pos_iff,
    mul_neg_iff, hr, hr.not_gt, and_true, and_false, or_false, false_or]

/-- An exponent below zero swaps the factors above the line with those below it. -/
theorem ordered_scaled_of_neg {r : ℚ} (hr : r < 0) (ts : List (UnitTerm R)) :
    ordered (scaled r ts) = scaled r (ts.filter (·.power < 0) ++ ts.filter (0 < ·.power)) := by
  simp only [ordered, scaled, List.filter_map, List.map_append, Function.comp_def, mul_pos_iff,
    mul_neg_iff, hr, hr.not_gt, and_true, and_false, or_false, false_or]

theorem ordered_swapped (ts : List (UnitTerm R)) :
    ordered (ts.filter (·.power < 0) ++ ts.filter (0 < ·.power)) = ordered ts := by
  have hpos : ∀ t : UnitTerm R, (decide (0 < t.power) && decide (t.power < 0)) = false := fun t => by
    simpa using fun h : 0 < t.power => h.le
  have hneg : ∀ t : UnitTerm R, (decide (t.power < 0) && decide (0 < t.power)) = false := fun t => by
    rw [Bool.and_comm, hpos]
  simp only [ordered, List.filter_append, List.filter_filter, Bool.and_self, hpos, hneg,
    List.filter_false, List.nil_append, List.append_nil]

/-- Two exponents that undo each other undo the order that each of them makes. -/
theorem ordered_scaled_inverse {r : ℚ} (hr : r ≠ 0) {ts : List (UnitTerm R)} (h : ordered ts = ts) :
    ordered (scaled r⁻¹ (ordered (scaled r ts))) = ts := by
  rcases lt_or_gt_of_ne hr with hneg | hpos
  · rw [ordered_scaled_of_neg hneg, scaled_inverse hr, ordered_swapped, h]
  · rw [ordered_scaled_of_pos hpos, scaled_inverse hr, h, h]

theorem ordered_perm {ts : List (UnitTerm R)} (h : ∀ t ∈ ts, t.power ≠ 0) : (ordered ts).Perm ts := by
  have hrest : ts.filter (·.power < 0) = ts.filter fun t => !decide (0 < t.power) := by
    refine List.filter_congr fun t ht => ?_
    rw [← decide_not, decide_eq_decide, not_lt]
    exact ⟨le_of_lt, fun hle => lt_of_le_of_ne hle (h t ht)⟩
  rw [ordered, hrest]
  exact List.filter_append_perm _ ts

variable [Scalar R]

/-- A power that is not zero multiplies the powers of the factors and puts them in order. -/
theorem Canonical.pow_eq {u : CompoundUnit R} (hu : u.Canonical) {k : R} {r : ℚ}
    (hfinite : Scalar.isFinite k = true) (hexponent : Exponent.ofScalar k = .ok r) (hr : r ≠ 0) :
    u.pow k = .ok ⟨CompoundUnit.ordered (scaled r u.terms)⟩ ∧
      (⟨CompoundUnit.ordered (scaled r u.terms)⟩ : CompoundUnit R).Canonical := by
  obtain ⟨w, hw, hpower⟩ := hu.pow_isPower hfinite hexponent
  have hunit := hpower.scaleless.symm.trans (hu.canonicalize_scaled_of_ne_zero hr)
  obtain rfl : w = ⟨CompoundUnit.ordered (scaled r u.terms)⟩ := congrArg Prod.fst (Except.ok.inj hunit)
  exact ⟨hw, hpower.canonical⟩

/-- **Roots and powers undo each other.** The machine number nearest to a fraction of numbers up to one
thousand is used as that fraction: it multiplies the power of each factor by exactly that, and the one
nearest to the inverse leads back to the factors that were there, in their order. -/
theorem pow_pow_inverse {u : CompoundUnit R} (hu : u.Canonical) {p q : ℤ} (hp : p ≠ 0) (hq : q ≠ 0)
    (hpBound : |p| ≤ 1000) (hqBound : |q| ≤ 1000) {k k' : R} (hk : Exponent.IsNearest k (p / q))
    (hk' : Exponent.IsNearest k' (q / p)) :
    Exponent.ofScalar k = .ok (p / q) ∧ ∃ w, u.pow k = .ok w ∧
      w.terms.Perm (u.terms.map fun t => { t with power := t.power * (p / q) }) ∧ w.pow k' = .ok u := by
  have hthere := Exponent.isInvertible_div hp hq hpBound hqBound
  have hback := Exponent.isInvertible_div hq hp hqBound hpBound
  have hexponent := hk.ofScalar hthere
  obtain ⟨hw, hcanonical⟩ := hu.pow_eq hk.finite hexponent hthere.ne_zero
  refine ⟨hexponent, _, hw, ordered_perm ?_, ?_⟩
  · intro t ht
    obtain ⟨s, hs, rfl⟩ := List.mem_map.mp ht
    exact mul_ne_zero (hu.nonzero s hs) hthere.ne_zero
  · rw [(hcanonical.pow_eq hk'.finite (hk'.ofScalar hback) hback.ne_zero).1, ← inv_div,
      ordered_scaled_inverse hthere.ne_zero hu.ordered]

/-- The machine number next to minus a third takes a root of widgets per kilometre, and minus three brings
kilometres per widget back. -/
theorem kilometresPerWidget_cube_root :
    Exponent.ofScalar ((-Binary64.roundRat (1 / 3) : ℚ) : ℝ) = .ok (-1 / 3) ∧
      ∃ w, kilometresPerWidget.pow ((-Binary64.roundRat (1 / 3) : ℚ) : ℝ) = .ok w ∧
        w.terms.Perm (kilometresPerWidget.terms.map fun t => { t with power := t.power * (-1 / 3) }) ∧
        w.pow ((-Binary64.roundRat 3 : ℚ) : ℝ) = .ok kilometresPerWidget := by
  have hrange : ∀ x : ℚ, x ≤ 3 → x < 2 ^ 1023 := fun x hx => Exponent.lt_range (hx.trans (by decide))
  have hthird : Binary64.IsNearest (-(1 / 3)) (-Binary64.roundRat (1 / 3)) :=
    (Binary64.isNearest_roundRat (by norm_num) (hrange _ (by norm_num))).neg
  have hthree : Binary64.IsNearest (-3) (-Binary64.roundRat 3) :=
    (Binary64.isNearest_roundRat (by norm_num) (hrange _ le_rfl)).neg
  have hinverse := pow_pow_inverse canonical_kilometresPerWidget (p := -1) (q := 3) (by decide)
    (by decide) (by decide) (by decide)
    (Exponent.isNearest_ratCast (a := -Binary64.roundRat (1 / 3)) (by convert hthird using 1; norm_num))
    (Exponent.isNearest_ratCast (a := -Binary64.roundRat 3) (by convert hthree using 1; norm_num))
  simpa only [Int.cast_neg, Int.cast_one, Int.cast_ofNat] using hinverse

end CompoundUnit

end Ballpark
