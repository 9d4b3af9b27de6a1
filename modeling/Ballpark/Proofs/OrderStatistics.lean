import Mathlib.Order.Interval.Set.Defs
import Ballpark.Proofs.ScoreTerms
import Ballpark.Chart

/-!
# Order statistics

A percentile is a particle at a place of the order. Which particle that is can be told without sorting:
at most as many as the place are below it, and more than that are not above it
(`IsOrderStatistic`). Counting alone gives the rest: what stands at a later place is not smaller, the
first place has the smallest particle and the last one the largest. The dots of a chart are read off
the sorted particles by a rule of their own, and it is the rule of percentiles
(`Dotplot.quantiles_eq`).
-/

namespace Ballpark

/-- The number at a place of an order, told by counting. -/
structure IsOrderStatistic (xs : List ℝ) (k : Nat) (x : ℝ) : Prop where
  mem : x ∈ xs
  below : xs.countP (· < x) ≤ k
  upTo : k < xs.countP (· ≤ x)

namespace IsOrderStatistic

variable {xs ys : List ℝ} {k l : Nat} {x y : ℝ}

/-- In a sorted list the place is the place in the list. -/
theorem of_sorted (h : xs.Pairwise (· ≤ ·)) (hx : xs[k]? = some x) : IsOrderStatistic xs k x := by
  have hlt : k < xs.length := (List.getElem?_eq_some_iff.mp hx).1
  refine ⟨List.mem_of_getElem? hx, ?_, ?_⟩
  · have hdrop : (xs.drop k).countP (· < x) = 0 :=
      List.countP_eq_zero.mpr fun z hz => by simpa using Score.le_of_mem_drop h hx hz
    calc xs.countP (· < x) = (xs.take k).countP (· < x) + (xs.drop k).countP (· < x) := by
          rw [← List.countP_append, List.take_append_drop]
      _ ≤ k := by
          rw [hdrop, add_zero]
          exact List.countP_le_length.trans (List.length_take_le k xs)
  · have htake : (xs.take (k + 1)).countP (· ≤ x) = k + 1 := by
      rw [List.countP_eq_length.mpr fun z hz => by simpa using Score.le_of_mem_take h hx hz,
        List.length_take, min_eq_left hlt]
    calc k < (xs.take (k + 1)).countP (· ≤ x) := by rw [htake]; exact k.lt_succ_self
      _ ≤ xs.countP (· ≤ x) := (List.take_sublist _ _).countP_le

theorem perm (h : IsOrderStatistic xs k x) (hperm : xs.Perm ys) : IsOrderStatistic ys k x :=
  ⟨hperm.mem_iff.mp h.mem, hperm.countP_eq _ ▸ h.below, hperm.countP_eq _ ▸ h.upTo⟩

/-- **What stands at a later place is not smaller.** -/
theorem le (hx : IsOrderStatistic xs k x) (hy : IsOrderStatistic xs l y) (hkl : k ≤ l) : x ≤ y := by
  by_contra hlt
  have hcount : xs.countP (· ≤ y) ≤ xs.countP (· < x) :=
    List.countP_mono_left fun z _ hz => by simpa using (by simpa using hz : z ≤ y).trans_lt (not_le.mp hlt)
  exact absurd hx.below (by have := hy.upTo; omega)

/-- The first place has the smallest number. -/
theorem isLeast (h : IsOrderStatistic xs 0 x) : IsLeast {z | z ∈ xs} x := by
  refine ⟨h.mem, fun z hz => not_lt.mp fun hlt => ?_⟩
  have hpos : 0 < xs.countP (· < x) := List.countP_pos_iff.mpr ⟨z, hz, by simpa using hlt⟩
  exact absurd h.below (by omega)

/-- The last place has the largest number. -/
theorem isGreatest (h : IsOrderStatistic xs (xs.length - 1) x) : IsGreatest {z | z ∈ xs} x := by
  refine ⟨h.mem, fun z hz => ?_⟩
  have hall : xs.countP (· ≤ x) = xs.length :=
    le_antisymm List.countP_le_length (by have := h.upTo; omega)
  simpa using List.countP_eq_length.mp hall z hz

end IsOrderStatistic

namespace Sample

variable (s : Sample ℝ)

theorem wholePart_of_nonneg {x : ℝ} (h : 0 ≤ x) : wholePart x = ⌊x⌋₊ := by
  rw [wholePart, Scalar.floor_toRat h]
  rfl

theorem isLeast_min : IsLeast {z | z ∈ s.toList} s.min := by
  have hmin : s.toList.min? = some s.min := by
    rw [toList, List.min?_cons', min]
    congr 2
    funext x y
    exact (Scalar.minimum_real x y).symm
  exact List.min?_eq_some_iff.mp hmin

theorem isGreatest_max : IsGreatest {z | z ∈ s.toList} s.max := by
  have hmax : s.toList.max? = some s.max := by
    rw [toList, List.max?_cons', max]
    congr 2
    funext x y
    exact (Scalar.maximum_real x y).symm
  exact List.max?_eq_some_iff.mp hmax

theorem min_le_max : s.min ≤ s.max :=
  s.isGreatest_max.2 s.isLeast_min.1

/-- The place that a share of the order comes to. -/
noncomputable def placeAt (n : Nat) (p : ℝ) : Nat :=
  Min.min ⌊p * n⌋₊ (n - 1)

theorem placeAt_lt {n : Nat} (h : 0 < n) (p : ℝ) : placeAt n p < n := by
  rw [placeAt]
  omega

theorem placeAt_mono (n : Nat) {p r : ℝ} (h : p ≤ r) : placeAt n p ≤ placeAt n r :=
  min_le_min_right _ (Nat.floor_mono (mul_le_mul_of_nonneg_right h n.cast_nonneg))

theorem placeAt_zero (n : Nat) : placeAt n 0 = 0 := by
  simp [placeAt]

theorem placeAt_one (n : Nat) : placeAt n 1 = n - 1 := by
  simp [placeAt]

theorem length_sorted : s.sorted.length = s.size :=
  s.sorted_perm.length_eq

theorem isOrderStatistic_of_sorted {k : Nat} {x : ℝ} (h : s.sorted[k]? = some x) :
    IsOrderStatistic s.toList k x :=
  (IsOrderStatistic.of_sorted s.sorted_pairwise h).perm s.sorted_perm

theorem getElem?_orderStatistic {p : ℝ} (h : 0 ≤ p) :
    s.sorted[placeAt s.size p]? = some (s.orderStatistic p) := by
  have hplace : Min.min (wholePart (p * (Scalar.ofNat s.size : ℝ))) (s.sorted.length - 1) =
      placeAt s.size p := by
    rw [Scalar.ofNat_real, wholePart_of_nonneg (mul_nonneg h (Nat.cast_nonneg _)), length_sorted, placeAt]
  have hlt : placeAt s.size p < s.sorted.length := s.length_sorted ▸ placeAt_lt s.size_pos p
  rw [orderStatistic, itemAt, hplace, List.getD_eq_getElem?_getD, List.getElem?_eq_getElem hlt,
    Option.getD_some]

/-- **The particle at a share of the order is an order statistic.** -/
theorem isOrderStatistic_orderStatistic {p : ℝ} (h : 0 ≤ p) :
    IsOrderStatistic s.toList (placeAt s.size p) (s.orderStatistic p) :=
  s.isOrderStatistic_of_sorted (s.getElem?_orderStatistic h)

theorem orderStatistic_mono {p r : ℝ} (hp : 0 ≤ p) (h : p ≤ r) : s.orderStatistic p ≤ s.orderStatistic r :=
  (s.isOrderStatistic_orderStatistic hp).le (s.isOrderStatistic_orderStatistic (hp.trans h))
    (placeAt_mono _ h)

/-- The first place of the order has the smallest particle. -/
theorem eq_min {x : ℝ} (h : IsOrderStatistic s.toList 0 x) : x = s.min :=
  h.isLeast.unique s.isLeast_min

/-- The last place of the order has the largest particle. -/
theorem eq_max {x : ℝ} (h : IsOrderStatistic s.toList (s.size - 1) x) : x = s.max :=
  h.isGreatest.unique s.isGreatest_max

theorem orderStatistic_zero : s.orderStatistic 0 = s.min :=
  s.eq_min (placeAt_zero s.size ▸ s.isOrderStatistic_orderStatistic le_rfl)

theorem orderStatistic_one : s.orderStatistic 1 = s.max :=
  s.eq_max (placeAt_one s.size ▸ s.isOrderStatistic_orderStatistic zero_le_one)

theorem headD_sorted (x : ℝ) : s.sorted.headD x = s.min := by
  have hlt : 0 < s.sorted.length := s.length_sorted ▸ s.size_pos
  have hplace := List.getElem?_eq_getElem hlt
  rw [List.headD_eq_head?_getD, List.head?_eq_getElem?, hplace]
  exact s.eq_min (s.isOrderStatistic_of_sorted hplace)

theorem getLastD_sorted (x : ℝ) : s.sorted.getLastD x = s.max := by
  have hlt : s.sorted.length - 1 < s.sorted.length :=
    Nat.sub_one_lt (s.length_sorted ▸ s.size_pos).ne'
  have hplace := List.getElem?_eq_getElem hlt
  rw [List.getLastD_eq_getLast?, List.getLast?_eq_getElem?, hplace]
  exact s.eq_max (s.length_sorted ▸ s.isOrderStatistic_of_sorted hplace)

end Sample

/-- An exact quantity has its number at every share, as a sample of it alone has. -/
theorem Quantity.percentile_eq (q : Quantity ℝ) {p : ℝ} (h : p ∈ Set.Icc (0 : ℝ) 1) :
    q.percentile p = .ok (q.value.particles.orderStatistic p) := by
  have hshare : isProbability p = true := by simpa [isProbability] using h
  rw [percentile, hshare]
  cases hvalue : q.value with
  | scalar x =>
    have hmem := ((Sample.single x).isOrderStatistic_orderStatistic h.1).mem
    exact congrArg Except.ok (List.mem_singleton.mp hmem).symm
  | sample s => rfl

namespace Dotplot

/-- The dots are the particles at their shares of the order. -/
theorem quantiles_eq (count : Nat) (dots : ℝ) (unit : String) (s : Sample ℝ) :
    (ofSample count dots unit s).quantiles =
      (List.range count).map fun i => s.orderStatistic (share dots i) := rfl

theorem share_eq (m i : Nat) : share (m : ℝ) i = (i + 1 / 2) / m := by
  rw [share, Scalar.ofNat_real, Scalar.ofRat_real]
  norm_num

/-- The center of a share of the order is a share. -/
theorem share_mem {m i : Nat} (h : i < m) : share (m : ℝ) i ∈ Set.Icc (0 : ℝ) 1 := by
  have hm : (0 : ℝ) < m := Nat.cast_pos.mpr (Nat.zero_lt_of_lt h)
  have hi : (i : ℝ) + 1 ≤ m := by exact_mod_cast h
  rw [share_eq]
  refine ⟨by positivity, (div_le_one hm).mpr ?_⟩
  linarith

theorem share_mono (m : Nat) {i j : Nat} (h : i ≤ j) : share (m : ℝ) i ≤ share (m : ℝ) j := by
  have hij : (i : ℝ) ≤ j := Nat.cast_le.mpr h
  rw [share_eq, share_eq]
  gcongr

section

variable {m : Nat} (unit : String) (s : Sample ℝ)

theorem getElem?_quantiles {i : Nat} (h : i < m) :
    (ofSample m (m : ℝ) unit s).quantiles[i]? = some (s.orderStatistic (share (m : ℝ) i)) := by
  rw [quantiles_eq, List.getElem?_map, List.getElem?_range h]
  rfl

theorem quantiles_pairwise : (ofSample m (m : ℝ) unit s).quantiles.Pairwise (· ≤ ·) := by
  rw [quantiles_eq, List.pairwise_map]
  refine List.pairwise_lt_range.imp_of_mem fun hi _ hij => ?_
  exact s.orderStatistic_mono (share_mem (List.mem_range.mp hi)).1 (share_mono m hij.le)

/-- Dots are particles. -/
theorem mem_toList_of_mem_quantiles {x : ℝ} (h : x ∈ (ofSample m (m : ℝ) unit s).quantiles) : x ∈ s.toList := by
  rw [quantiles_eq] at h
  obtain ⟨i, hi, rfl⟩ := List.mem_map.mp h
  exact (s.isOrderStatistic_orderStatistic (share_mem (List.mem_range.mp hi)).1).mem

variable {dots : Written ℝ} (hdots : (dots.toScalar : ℝ) = m) (hm : 1 ≤ m)
include hdots hm

omit s unit in
theorem requireDots_eq : requireDots dots = .ok ⟨⟩ := by
  have hone : ¬(m : ℝ) < 1 := not_lt.mpr (Nat.one_le_cast.mpr hm)
  simp [requireDots, hdots, hone]

/-- A whole number of dots, at least one, is accepted. -/
theorem make_eq : make dots unit s = .ok (ofSample m (m : ℝ) unit s) := by
  have hvalue : Scalar.toRat (m : ℝ) = ((m : ℤ) : ℚ) := by exact_mod_cast Scalar.toRat_ratCast m
  have hplaces : places dots = .ok m := by
    rw [places, hdots, hvalue, Rat.ceil_intCast, Int.toNat_natCast]
    rfl
  rw [make, requireDots_eq hdots hm, hplaces, hdots]
  rfl

theorem ofList_eq : ofList dots unit s.toList = .ok (ofSample m (m : ℝ) unit s) := by
  rw [← make_eq unit s hdots hm, ofList, requireDots_eq hdots hm]
  rfl

end

end Dotplot

/-- **Percentiles are order statistics, and the dots of a chart are percentiles.** Of `n` particles the
percentile at `p` has at most `min ⌊p n⌋ (n - 1)` below it, and more than that are not above it. It grows
with `p` from the smallest particle to the largest. The dots of a chart of the particles are the
percentiles at the centers of equal shares, so they are in order and between the same two. -/
theorem Quantity.percentile_isOrderStatistic (q : Quantity ℝ) :
    (∀ p ∈ Set.Icc (0 : ℝ) 1, ∃ x, q.percentile p = .ok x ∧
      IsOrderStatistic q.value.particles.toList (Min.min ⌊p * q.size⌋₊ (q.size - 1)) x) ∧
    (∀ p ∈ Set.Icc (0 : ℝ) 1, ∀ r ∈ Set.Icc (0 : ℝ) 1, p ≤ r → ∀ x y,
      q.percentile p = .ok x → q.percentile r = .ok y → x ≤ y) ∧
    q.percentile 0 = .ok q.min ∧ IsLeast {z | z ∈ q.value.particles.toList} q.min ∧
    q.percentile 1 = .ok q.max ∧ IsGreatest {z | z ∈ q.value.particles.toList} q.max ∧
    ∀ (dots : Written ℝ) (m : Nat) (unit : String), (dots.toScalar : ℝ) = m → 1 ≤ m →
      ∃ d, Dotplot.make dots unit q.value.particles = .ok d ∧
        Dotplot.ofList dots unit q.value.particles.toList = .ok d ∧
        d.quantiles.length = m ∧
        (∀ i < m, ∃ x, d.quantiles[i]? = some x ∧ q.percentile ((i + 1 / 2) / m) = .ok x) ∧
        d.quantiles.Pairwise (· ≤ ·) ∧ (∀ x ∈ d.quantiles, x ∈ Set.Icc d.low d.high) ∧
        d.low = q.min ∧ d.high = q.max := by
  set s := q.value.particles with hs
  refine ⟨fun p hp => ⟨_, q.percentile_eq hp, s.isOrderStatistic_orderStatistic hp.1⟩,
    fun p hp r hr hpr x y hx hy => ?_, ?_, s.isLeast_min, ?_, s.isGreatest_max,
    fun dots m unit hdots hm => ?_⟩
  · -- the rank grows with the percentile
    rw [q.percentile_eq hp] at hx
    rw [q.percentile_eq hr] at hy
    obtain rfl := Except.ok.inj hx
    obtain rfl := Except.ok.inj hy
    exact s.orderStatistic_mono hp.1 hpr
  · rw [q.percentile_eq ⟨le_rfl, zero_le_one⟩, Sample.orderStatistic_zero]
    rfl
  · rw [q.percentile_eq ⟨zero_le_one, le_rfl⟩, Sample.orderStatistic_one]
    rfl
  · -- each dot is the percentile at the center of its share
    have hlow : s.sorted.headD s.head = q.min := s.headD_sorted _
    have hhigh : s.sorted.getLastD s.head = q.max := s.getLastD_sorted _
    refine ⟨_, Dotplot.make_eq unit s hdots hm, Dotplot.ofList_eq unit s hdots hm, ?_, fun i hi => ?_,
      Dotplot.quantiles_pairwise unit s, fun x hx => ?_, hlow, hhigh⟩
    · rw [Dotplot.quantiles_eq, List.length_map, List.length_range]
    · refine ⟨_, Dotplot.getElem?_quantiles unit s hi, ?_⟩
      rw [← Dotplot.share_eq, q.percentile_eq (Dotplot.share_mem hi)]
    · have hmem := Dotplot.mem_toList_of_mem_quantiles unit s hx
      exact ⟨hlow.trans_le (s.isLeast_min.2 hmem), (s.isGreatest_max.2 hmem).trans_eq hhigh.symm⟩

/-- Of five particles the percentile at three tenths is the second in the order. -/
theorem Quantity.percentile_of_five : (0.3 : ℝ) ∈ Set.Icc (0 : ℝ) 1 ∧
    (⟨.sample ⟨5, [1, 4, 2, 3]⟩, .one⟩ : Quantity ℝ).percentile 0.3 = .ok 2 := by
  have hshare : (0.3 : ℝ) ∈ Set.Icc (0 : ℝ) 1 := by norm_num
  obtain ⟨x, hx, horder⟩ := (percentile_isOrderStatistic ⟨.sample ⟨5, [1, 4, 2, 3]⟩, .one⟩).1 0.3 hshare
  have hplace : ⌊(0.3 : ℝ) * (5 : ℕ)⌋₊ = 1 := by
    rw [Nat.floor_eq_iff (by norm_num)]
    norm_num
  have hsize : (⟨.sample ⟨5, [1, 4, 2, 3]⟩, .one⟩ : Quantity ℝ).size = 5 := rfl
  rw [hsize, hplace] at horder
  have hsecond : IsOrderStatistic [5, 1, 4, 2, 3] 1 (2 : ℝ) :=
    ⟨by simp, by norm_num [List.countP_cons], by norm_num [List.countP_cons]⟩
  exact ⟨hshare, hx.trans (congrArg _ (le_antisymm (horder.le hsecond le_rfl) (hsecond.le horder le_rfl)))⟩

end Ballpark
