import Mathlib.Algebra.Order.BigOperators.Group.Multiset
import Mathlib.Tactic.FieldSimp
import Ballpark.Proofs.OrderStatistics

/-!
# Counts in bins

A histogram tells the bin of a particle from its distance to the smallest one, as a whole part, and the
edges of the bins from their number. Both say the same: a particle is past the edge of a bin exactly if
the whole part has reached the bin (`Histogram.edge_le_iff`). So each particle is counted in the bin
whose edges it lies between, the largest one in the last bin (`Histogram.binOf_eq_iff`), and as the
bin of a particle is one of the bins, no particle is lost (`Histogram.sum_tally`).
-/

namespace Ballpark.Histogram

/-! ## Places that are counted -/

theorem length_tally (bins : Nat) (places : List Nat) : (tally bins places).length = bins := by
  rw [tally, List.length_map, List.length_range]

theorem getElem?_tally {bins i : Nat} (h : i < bins) (places : List Nat) :
    (tally bins places)[i]? = some (places.count i) := by
  rw [tally, List.getElem?_map, List.getElem?_range h]
  rfl

/-- Places within the bins are all counted, each of them once. -/
theorem sum_tally {bins : Nat} {places : List Nat} (h : ∀ i ∈ places, i < bins) :
    (tally bins places).sum = places.length := by
  calc (tally bins places).sum = ∑ i ∈ Finset.range bins, (places : Multiset Nat).count i := by
        simp only [Multiset.coe_count]
        rfl
    _ = places.length := Multiset.sum_count_eq_card fun i hi => Finset.mem_range.mpr (h i hi)

/-- If there is one place for all, all are counted there. -/
theorem tally_same (bins n : Nat) :
    tally (bins + 1) (List.replicate n 0) = n :: List.replicate bins 0 := by
  have hrest : (List.range bins).map (fun i => (List.replicate n 0).count (i + 1)) = List.replicate bins 0 := by
    rw [List.eq_replicate_iff, List.length_map, List.length_range]
    refine ⟨rfl, fun c hc => ?_⟩
    obtain ⟨i, -, rfl⟩ := List.mem_map.mp hc
    exact List.count_eq_zero.mpr fun h => absurd (List.eq_of_mem_replicate h) i.succ_ne_zero
  rw [tally, List.range_succ_eq_map, List.map_cons, List.count_replicate_self, List.map_map]
  exact congrArg _ hrest

/-! ## Edges -/

/-- The edge where a bin begins. -/
noncomputable def edge (bins : Nat) (low span : ℝ) (i : Nat) : ℝ :=
  low + i / bins * span

section

variable {bins : Nat} {low span : ℝ}

theorem equalEdges_eq : equalEdges bins low span = (List.range (bins + 1)).map (edge bins low span) := by
  simp only [equalEdges, Scalar.ofNat_real]
  rfl

theorem edge_zero : edge bins low span 0 = low := by
  simp [edge]

theorem edge_last (h : 0 < bins) : edge bins low span bins = low + span := by
  have hbins : (bins : ℝ) ≠ 0 := Nat.cast_ne_zero.mpr h.ne'
  rw [edge, div_self hbins, one_mul]

theorem edge_succ_sub (i : Nat) : edge bins low span (i + 1) - edge bins low span i = span / bins := by
  rw [edge, edge, Nat.cast_succ]
  ring

theorem edge_mono (hspan : 0 ≤ span) {i j : Nat} (h : i ≤ j) :
    edge bins low span i ≤ edge bins low span j := by
  have hij : (i : ℝ) ≤ j := Nat.cast_le.mpr h
  rw [edge, edge]
  gcongr

/-- A number is past the edge of a bin if its distance, counted in bins, is. -/
theorem edge_le_iff (hbins : 0 < bins) (hspan : 0 < span) (x : ℝ) (i : Nat) :
    edge bins low span i ≤ x ↔ (i : ℝ) ≤ (x - low) / span * bins := by
  have hpos : (0 : ℝ) < bins := Nat.cast_pos.mpr hbins
  rw [edge, ← le_sub_iff_add_le', div_mul_eq_mul_div, div_le_iff₀ hpos, div_mul_eq_mul_div,
    le_div_iff₀ hspan]

/-! ## The bin of a number -/

theorem binOf_lt (hbins : 0 < bins) (x : ℝ) : binOf bins low span x < bins := by
  rw [binOf]
  omega

theorem binOf_eq (hspan : 0 < span) {x : ℝ} (hx : low ≤ x) :
    binOf bins low span x = min ⌊(x - low) / span * bins⌋₊ (bins - 1) := by
  have hnonneg : 0 ≤ (x - low) / span * bins := by
    have := sub_nonneg.mpr hx
    positivity
  rw [binOf, Scalar.ofNat_real, Sample.wholePart_of_nonneg hnonneg]

/-- **A number is in the bin whose edges it lies between**, or it is the largest and the bin the last. -/
theorem binOf_eq_iff (hspan : 0 < span) {x : ℝ} (hx : x ∈ Set.Icc low (low + span)) {i : Nat}
    (hi : i < bins) : binOf bins low span x = i ↔ edge bins low span i ≤ x ∧
      (x < edge bins low span (i + 1) ∨ i + 1 = bins ∧ x = low + span) := by
  have hbins : 0 < bins := Nat.zero_lt_of_lt hi
  have hnonneg : 0 ≤ (x - low) / span * bins := by
    have := sub_nonneg.mpr hx.1
    positivity
  rw [binOf_eq hspan hx.1, ← not_le, edge_le_iff hbins hspan, edge_le_iff hbins hspan,
    ← Nat.le_floor_iff hnonneg, ← Nat.le_floor_iff hnonneg]
  rcases Nat.lt_or_ge (i + 1) bins with hinner | hlast
  · omega
  · -- in the last bin the number itself has to tell, as the whole part may be past the bin
    obtain rfl : bins = i + 1 := by omega
    rw [Nat.add_sub_cancel, min_eq_right_iff]
    refine ⟨fun h => ⟨h, ?_⟩, And.left⟩
    by_cases htop : i + 1 ≤ ⌊(x - low) / span * (i + 1 : Nat)⌋₊
    · rw [Nat.le_floor_iff hnonneg, ← edge_le_iff hbins hspan, edge_last hbins] at htop
      exact .inr ⟨rfl, le_antisymm hx.2 htop⟩
    · exact .inl htop

end

/-! ## The histogram of a sample -/

section

variable (n : Nat) (s : Sample ℝ)

/-- The places that the particles are counted at. -/
noncomputable def places : List Nat :=
  s.toList.map fun x => if s.min < s.max then binOf n s.min (s.max - s.min) x else 0

/-- A histogram has equal bins between the smallest and the largest particle. -/
theorem ofSample_eq (unit : String) : ofSample n unit s =
    .ok ⟨tally n (places n s), equalEdges n s.min (s.max - s.min), s.min, s.max, unit⟩ := by
  by_cases hlt : s.min < s.max
  · have hspan : s.max - s.min ≠ 0 := (sub_pos.mpr hlt).ne'
    simp [ofSample, places, hlt, hspan]
  · have hspan : s.max - s.min = 0 := sub_eq_zero.mpr (le_antisymm (not_lt.mp hlt) s.min_le_max)
    simp [ofSample, places, hlt, hspan]

theorem length_places : (places n s).length = s.size := by
  rw [places, List.length_map]
  rfl

variable {n}

theorem lt_of_mem_places (hn : 1 ≤ n) {i : Nat} (h : i ∈ places n s) : i < n := by
  obtain ⟨x, -, rfl⟩ := List.mem_map.mp h
  split
  · exact binOf_lt hn x
  · exact hn

/-- The particles counted at a place are those between its edges. -/
theorem count_places (hlt : s.min < s.max) {i : Nat} (hi : i < n) :
    (places n s).count i = s.toList.countP fun x => edge n s.min (s.max - s.min) i ≤ x ∧
      (x < edge n s.min (s.max - s.min) (i + 1) ∨ i + 1 = n ∧ x = s.max) := by
  have htop : s.min + (s.max - s.min) = s.max := add_sub_cancel _ _
  rw [places, List.count, List.countP_map]
  refine List.countP_congr fun x hx => ?_
  have hbetween : x ∈ Set.Icc s.min (s.min + (s.max - s.min)) :=
    ⟨s.isLeast_min.2 hx, (s.isGreatest_max.2 hx).trans_eq htop.symm⟩
  have hbin := binOf_eq_iff (sub_pos.mpr hlt) hbetween hi
  rw [htop] at hbin
  simpa [hlt] using hbin

variable {bins : Written ℝ} (hbins : wholeBins bins = .ok n) (hn : 1 ≤ n)
include hbins hn

omit s in
theorem requireBins_eq : requireBins bins = .ok ⟨⟩ := by
  have hone : ¬(bins.toScalar : ℝ) < 1 := by
    cases bins with
    | whole z =>
      have hz : z.toNat = n := Except.ok.inj hbins
      have hle : (1 : ℤ) ≤ z := by omega
      exact not_lt.mpr (by simpa [Written.toScalar] using (by exact_mod_cast hle : (1 : ℝ) ≤ z))
    | decimal x => cases hbins
    | truth b =>
      have hb : b.toNat = n := Except.ok.inj hbins
      cases b with
      | false => exact absurd hn (by simp [← hb])
      | true => simp [Written.toScalar, Scalar.ofBool]
  simp [requireBins, hone]

theorem make_eq (unit : String) : make bins unit s = ofSample n unit s := by
  rw [make, requireBins_eq hbins hn, hbins]
  rfl

theorem ofList_eq (unit : String) : ofList bins unit s.toList = ofSample n unit s := by
  rw [← make_eq s hbins hn, ofList, requireBins_eq hbins hn]
  rfl

end

/-- **A histogram counts every particle once, in its own bin.** Its edges go from the smallest particle
to the largest in equal steps. A bin has the particles from its first edge on and below its second, the
last bin the largest particle, too; if all particles are equal, the first bin has them all. -/
theorem make_counts_each (s : Sample ℝ) {bins : Written ℝ} {n : Nat} (hbins : wholeBins bins = .ok n)
    (hn : 1 ≤ n) (unit : String) :
    ∃ h, make bins unit s = .ok h ∧ ofList bins unit s.toList = .ok h ∧
      IsLeast {x | x ∈ s.toList} h.low ∧ IsGreatest {x | x ∈ s.toList} h.high ∧
      h.counts.length = n ∧ h.counts.sum = s.toList.length ∧
      h.edges.length = n + 1 ∧ h.edges.Pairwise (· ≤ ·) ∧
      h.edges[0]? = some h.low ∧ h.edges[n]? = some h.high ∧
      (h.low < h.high → ∀ i < n, ∃ a b, h.edges[i]? = some a ∧ h.edges[i + 1]? = some b ∧
        b - a = (h.high - h.low) / n ∧
        h.counts[i]? = some (s.toList.countP fun x => a ≤ x ∧ (x < b ∨ i + 1 = n ∧ x = h.high))) ∧
      ((∀ x ∈ s.toList, x = s.head) → h.counts = s.toList.length :: List.replicate (n - 1) 0) := by
  have hspan : 0 ≤ s.max - s.min := sub_nonneg.mpr s.min_le_max
  have hedge : ∀ i ≤ n, (equalEdges n s.min (s.max - s.min))[i]? = some (edge n s.min (s.max - s.min) i) := by
    intro i hi
    rw [equalEdges_eq, List.getElem?_map, List.getElem?_range (Nat.lt_succ_of_le hi)]
    rfl
  refine ⟨_, (make_eq s hbins hn unit).trans (ofSample_eq n s unit),
    (ofList_eq s hbins hn unit).trans (ofSample_eq n s unit), s.isLeast_min, s.isGreatest_max,
    length_tally _ _, ?_, ?_, ?_, ?_, ?_, fun hlt i hi => ?_, fun hsame => ?_⟩
  · exact (sum_tally fun i hi => lt_of_mem_places s hn hi).trans (length_places n s)
  · rw [equalEdges_eq, List.length_map, List.length_range]
  · rw [equalEdges_eq, List.pairwise_map]
    exact List.pairwise_lt_range.imp fun hij => edge_mono hspan hij.le
  · rw [hedge 0 n.zero_le, edge_zero]
  · rw [hedge n le_rfl, edge_last hn, add_sub_cancel]
  · exact ⟨_, _, hedge i hi.le, hedge (i + 1) hi, edge_succ_sub i,
      (getElem?_tally hi _).trans (congrArg some (count_places s hlt hi))⟩
  · -- all particles are equal: the one place that is counted is the first
    have hlt : ¬s.min < s.max := by
      rw [hsame _ s.isLeast_min.1, hsame _ s.isGreatest_max.1]
      exact lt_irrefl _
    obtain ⟨m, rfl⟩ : ∃ m, n = m + 1 := ⟨n - 1, by omega⟩
    have hplaces : places (m + 1) s = List.replicate s.toList.length 0 := by
      simp only [places, if_neg hlt, List.map_const']
    rw [hplaces]
    exact tally_same m _

/-- Three particles in two bins. -/
theorem make_counts_three : wholeBins (.whole 2 : Written ℝ) = .ok 2 ∧ 1 ≤ 2 ∧
    ∃ h, make (.whole 2) "m" (⟨1, [3, 2]⟩ : Sample ℝ) = .ok h ∧ h.counts.sum = 3 ∧ h.edges.length = 3 := by
  have hbins : wholeBins (.whole 2 : Written ℝ) = .ok 2 := rfl
  obtain ⟨h, hmake, -, -, -, -, hsum, hedges, -⟩ := make_counts_each ⟨1, [3, 2]⟩ hbins one_le_two "m"
  exact ⟨hbins, one_le_two, h, hmake, hsum, hedges⟩

end Ballpark.Histogram
