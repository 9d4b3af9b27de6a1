import Mathlib.Algebra.Order.BigOperators.Group.List
import Ballpark.Proofs.Mean
import Ballpark.Proofs.SamplerSupport

/-!
# Drawing by weight

A uniform number picks the first of some weighted values whose share, with all before it, reaches the
number. So the numbers that pick a place lie behind the share in front of it and go up to the share
behind it, that one included (`Sampler.mem_picking`): as many of them as the weight is of all weights.
The intervals are closed on the other side than that of the uniform numbers, which begin with zero, so
zero belongs to none of them; it is left to the first place, whatever weighs there
(`Sampler.weighted_inverts_shares`).
-/

namespace Ballpark.Sampler

open Evaluation

/-- Weights that values can be drawn by. -/
structure Weighs (values weights : List ℝ) : Prop where
  nonempty : values ≠ []
  length : values.length = weights.length
  nonneg : ∀ w ∈ weights, 0 ≤ w
  positive : 0 < weights.sum

/-! ## Shares -/

/-- The share of the weights in front of a place. -/
noncomputable def shareBefore (weights : List ℝ) (p : Nat) : ℝ :=
  (weights.take p).sum / weights.sum

section Shares

variable {weights : List ℝ}

theorem getElem?_cumulativeShares {k : Nat} (hk : k < weights.length) :
    (cumulativeShares weights)[k]? = some (shareBefore weights (k + 1)) := by
  have hlength : k < (weights.map (· / Scalar.total weights)).length := by rwa [List.length_map]
  rw [cumulativeShares, Scalar.getElem?_cumulative hlength, Scalar.total_eq_sum, ← List.map_take,
    shareBefore]
  simp only [div_eq_mul_inv, List.sum_map_mul_right, List.map_id']

theorem length_cumulativeShares (weights : List ℝ) :
    (cumulativeShares weights).length = weights.length := by
  rw [cumulativeShares, Scalar.length_cumulative, List.length_map]

theorem shareBefore_mono (hnonneg : ∀ w ∈ weights, 0 ≤ w) {i j : Nat} (hij : i ≤ j) :
    shareBefore weights i ≤ shareBefore weights j :=
  div_le_div_of_nonneg_right
    ((List.take_sublist_take_left hij).sum_le_sum fun w hw => hnonneg w (List.mem_of_mem_take hw))
    (List.sum_nonneg hnonneg)

theorem shareBefore_zero (weights : List ℝ) : shareBefore weights 0 = 0 := by
  rw [shareBefore, List.take_zero, List.sum_nil, zero_div]

theorem shareBefore_length (hpositive : 0 < weights.sum) : shareBefore weights weights.length = 1 := by
  rw [shareBefore, List.take_length, div_self hpositive.ne']

/-- From one place to the next the share grows by that of the weight between them. -/
theorem shareBefore_succ {p : Nat} {w : ℝ} (hplace : weights[p]? = some w) :
    shareBefore weights (p + 1) = shareBefore weights p + w / weights.sum := by
  obtain ⟨hp, hget⟩ := List.getElem?_eq_some_iff.mp hplace
  rw [shareBefore, List.sum_take_succ _ _ hp, hget, add_div, shareBefore]

end Shares

/-! ## The numbers that pick a place -/

/-- The uniform numbers that pick a place. -/
noncomputable def picking (weights : List ℝ) (p : Nat) : Set ℝ :=
  {u ∈ Set.Ico 0 1 | pickPlace (cumulativeShares weights) u = p}

theorem pick_eq {values weights : List ℝ} {u x : ℝ} {p : Nat}
    (hplace : pickPlace (cumulativeShares weights) u = p) (hx : values[p]? = some x) :
    pick values weights u = x := by
  rw [pick, hplace, List.getD_eq_getElem?_getD, hx]
  rfl

/-- The place is that of a value, whatever the number. -/
theorem pickPlace_lt {weights : List ℝ} (hnil : weights ≠ []) (u : ℝ) :
    pickPlace (cumulativeShares weights) u < weights.length := by
  have hpos := List.length_pos_iff.mpr hnil
  rw [pickPlace, length_cumulativeShares]
  omega

/-- A number picks the place that parts the shares below it from the others. -/
theorem countP_lt_eq {shares : List ℝ} {u : ℝ} {p : Nat} (hp : p ≤ shares.length)
    (hbelow : ∀ k x, k < p → shares[k]? = some x → x < u)
    (habove : ∀ k x, p ≤ k → shares[k]? = some x → u ≤ x) : shares.countP (Scalar.lt · u) = p := by
  have hfront : (shares.take p).countP (Scalar.lt · u) = p := by
    have hall : ∀ x ∈ shares.take p, Scalar.lt x u = true := by
      intro x hx
      obtain ⟨k, hk⟩ := List.mem_iff_getElem?.mp hx
      rw [List.getElem?_take, Option.ite_none_right_eq_some] at hk
      simpa using hbelow k x hk.1 hk.2
    rw [List.countP_eq_length.mpr hall, List.length_take, min_eq_left hp]
  have hback : (shares.drop p).countP (Scalar.lt · u) = 0 := by
    refine List.countP_eq_zero.mpr fun x hx => ?_
    obtain ⟨k, hk⟩ := List.mem_iff_getElem?.mp hx
    rw [List.getElem?_drop] at hk
    simpa using habove (p + k) x (Nat.le_add_right p k) hk
  rw [← List.take_append_drop p shares, List.countP_append, hfront, hback, add_zero]

section Places

variable {weights : List ℝ}

/-- The place that a uniform number picks: the first whose share, with all before it, reaches the
number. -/
theorem pickPlace_eq (hnonneg : ∀ w ∈ weights, 0 ≤ w) {p : Nat} (hp : p < weights.length) {u : ℝ}
    (hbelow : p = 0 ∨ shareBefore weights p < u) (habove : u ≤ shareBefore weights (p + 1)) :
    pickPlace (cumulativeShares weights) u = p := by
  have hlength := length_cumulativeShares weights
  rw [pickPlace, countP_lt_eq (show p ≤ _ by omega), hlength]
  · exact min_eq_left (by omega)
  · intro k x hk hx
    rw [getElem?_cumulativeShares (by omega), Option.some.injEq] at hx
    rw [← hx]
    exact (shareBefore_mono hnonneg (Nat.succ_le_of_lt hk)).trans_lt (hbelow.resolve_left (by omega))
  · intro k x hk hx
    obtain ⟨hlt, -⟩ := List.getElem?_eq_some_iff.mp hx
    rw [getElem?_cumulativeShares (by omega), Option.some.injEq] at hx
    rw [← hx]
    exact habove.trans (shareBefore_mono hnonneg (Nat.succ_le_succ hk))

/-- A number below one picks some place. -/
theorem exists_place (hpositive : 0 < weights.sum) {u : ℝ} (hu : u < 1) :
    ∃ p < weights.length, (p = 0 ∨ shareBefore weights p < u) ∧ u ≤ shareBefore weights (p + 1) := by
  have hnil : 0 < weights.length := by
    refine List.length_pos_iff.mpr fun hnil => ?_
    rw [hnil, List.sum_nil] at hpositive
    exact lt_irrefl _ hpositive
  have hlast : u ≤ shareBefore weights (weights.length - 1 + 1) := by
    rw [Nat.sub_add_cancel hnil, shareBefore_length hpositive]
    exact hu.le
  -- the first place that the number does not pass
  classical
  have hexists : ∃ p, u ≤ shareBefore weights (p + 1) := ⟨_, hlast⟩
  refine ⟨Nat.find hexists, ?_, ?_, Nat.find_spec hexists⟩
  · have hle := Nat.find_min' hexists hlast
    omega
  · rcases hfind : Nat.find hexists with _ | k
    · exact .inl rfl
    · have hbefore := Nat.find_min hexists (show k < Nat.find hexists by omega)
      exact .inr (not_le.mp hbefore)

/-- **The numbers of a place** lie behind the share in front of it and go up to the share behind it; the
first place has zero as well. -/
theorem mem_picking (hnonneg : ∀ w ∈ weights, 0 ≤ w) (hpositive : 0 < weights.sum) {p : Nat}
    (hp : p < weights.length) {u : ℝ} : u ∈ picking weights p ↔
      u ∈ Set.Ico (0 : ℝ) 1 ∧ (p = 0 ∨ shareBefore weights p < u) ∧ u ≤ shareBefore weights (p + 1) := by
  constructor
  · rintro ⟨hu, hpick⟩
    obtain ⟨k, hk, hbelow, habove⟩ := exists_place hpositive hu.2
    obtain rfl : k = p := (pickPlace_eq hnonneg hk hbelow habove).symm.trans hpick
    exact ⟨hu, hbelow, habove⟩
  · rintro ⟨hu, hbelow, habove⟩
    exact ⟨hu, pickPlace_eq hnonneg hp hbelow habove⟩

/-- **The places that can be picked**: those with a weight, each by the middle of its share, and the
first one, which zero picks. -/
theorem picking_nonempty_iff (hnonneg : ∀ w ∈ weights, 0 ≤ w) (hpositive : 0 < weights.sum) {p : Nat}
    {w : ℝ} (hplace : weights[p]? = some w) : (picking weights p).Nonempty ↔ p = 0 ∨ 0 < w := by
  obtain ⟨hp, -⟩ := List.getElem?_eq_some_iff.mp hplace
  have hnext := shareBefore_succ hplace
  have hstart : 0 ≤ shareBefore weights p :=
    (shareBefore_zero weights).ge.trans (shareBefore_mono hnonneg (Nat.zero_le p))
  constructor
  · rintro ⟨u, hu⟩
    obtain ⟨-, hbelow, habove⟩ := (mem_picking hnonneg hpositive hp).mp hu
    refine hbelow.imp_right fun hbelow => (div_pos_iff_of_pos_right hpositive).mp ?_
    linarith
  · rintro (rfl | hw)
    · refine ⟨0, (mem_picking hnonneg hpositive hp).mpr ⟨⟨le_rfl, one_pos⟩, .inl rfl, ?_⟩⟩
      exact hstart.trans (shareBefore_mono hnonneg (Nat.le_succ 0))
    · have hshare : 0 < w / weights.sum := div_pos hw hpositive
      have hall : shareBefore weights (p + 1) ≤ 1 :=
        (shareBefore_mono hnonneg (Nat.succ_le_of_lt hp)).trans (shareBefore_length hpositive).le
      refine ⟨shareBefore weights p + w / weights.sum / 2,
        (mem_picking hnonneg hpositive hp).mpr ⟨⟨by linarith, by linarith⟩, .inr ?_, ?_⟩⟩
      · linarith
      · linarith

/-- A place without a weight is picked by no number but zero, and by zero if it is the first. -/
theorem picking_of_zero (hnonneg : ∀ w ∈ weights, 0 ≤ w) (hpositive : 0 < weights.sum) {p : Nat}
    (hplace : weights[p]? = some 0) : picking weights p = if p = 0 then {0} else ∅ := by
  obtain ⟨hp, -⟩ := List.getElem?_eq_some_iff.mp hplace
  have hnext : shareBefore weights (p + 1) = shareBefore weights p := by
    rw [shareBefore_succ hplace, zero_div, add_zero]
  ext u
  rw [mem_picking hnonneg hpositive hp, hnext]
  split
  · rename_i hfirst
    subst hfirst
    rw [shareBefore_zero, Set.mem_singleton_iff]
    constructor
    · rintro ⟨hu, -, habove⟩
      exact le_antisymm habove hu.1
    · rintro rfl
      exact ⟨⟨le_rfl, one_pos⟩, .inl rfl, le_rfl⟩
  · rename_i hlater
    refine iff_of_false (fun ⟨_, hbelow, habove⟩ => ?_) (Set.notMem_empty u)
    exact absurd habove (not_le.mpr (hbelow.resolve_left hlater))

end Places

/-! ## The sampler -/

variable {S : Type} [RandomSource S ℝ]

/-- The sampler draws a uniform number for each particle and gives the values that they pick. -/
theorem weighted_run {values weights : List ℝ} (h : Weighs values weights) {frame : SampleFrame ℝ}
    {n : SampleCount} (hcount : frame.count = .ok n) (s : S) : (weighted values weights frame).run s =
      let drawn := Draw.sampleOf RandomSource.uniform n s
      (frame.unit.apply (drawn.1.map (pick values weights)), drawn.2) := by
  obtain ⟨hnonempty, hlength, hnonneg, hpositive⟩ := h
  obtain ⟨_, unit⟩ := frame
  obtain rfl := hcount
  rcases values with _ | ⟨first, rest⟩
  · exact absurd rfl hnonempty
  · have hsame : ((first :: rest).length == weights.length) = true := beq_iff_eq.mpr hlength
    have hweights : weights.all Scalar.isNonnegative = true :=
      List.all_eq_true.mpr fun w hw => by simpa using hnonneg w hw
    have htotal : Scalar.isPositive (Scalar.total weights) = true := by
      simpa [Scalar.total_eq_sum] using hpositive
    rw [weighted, run_bind_of_ok (run_require_of_true hsame _ s),
      run_bind_of_ok (run_requireFinite _ _ s), run_bind_of_ok (run_require_of_true hweights _ s),
      run_bind_of_ok (run_require_of_true htotal _ s), run_bind_of_ok (run_resolve rfl s)]
    rfl

/-- What is drawn from is weighed. -/
theorem weighted_weighs (values weights : List ℝ) (frame : SampleFrame ℝ) :
    (weighted values weights frame : Draw ℝ S (Quantity ℝ)).Yields fun _ => Weighs values weights := by
  rcases values with _ | ⟨first, rest⟩
  · exact .throw _
  · refine .require fun hlength => .after fun _ => .require fun hnonneg => .require fun hpositive => ?_
    refine fun _ _ _ _ => ⟨List.cons_ne_nil _ _, beq_iff_eq.mp hlength, fun w hw => ?_, ?_⟩
    · simpa using List.all_eq_true.mp hnonneg w hw
    · simpa [Scalar.total_eq_sum] using hpositive

/-- **Drawing by weight inverts the cumulative shares.** Each uniform number picks exactly one place. The
numbers of a place form an interval, open below and closed above, between the share in front of it and
the share behind it, as long as the weight's part of all weights; only the first place has the lower end,
zero, as well. So a place without a weight is never picked, save the first one by zero, and that is the
only way in which a value without a weight can be drawn. The sampler draws a number for each particle,
and the particle is the value at the place that the number picks. -/
theorem weighted_inverts_shares {values weights : List ℝ} (h : Weighs values weights) :
    (∀ u ∈ Set.Ico (0 : ℝ) 1, ∃! p, p < values.length ∧ u ∈ picking weights p) ∧
    (∀ p w, weights[p]? = some w →
      (∀ u, u ∈ picking weights p ↔ u ∈ Set.Ico (0 : ℝ) 1 ∧ (p = 0 ∨ shareBefore weights p < u) ∧
        u ≤ shareBefore weights (p + 1)) ∧
      shareBefore weights (p + 1) - shareBefore weights p = w / weights.sum) ∧
    (∀ p, weights[p]? = some 0 → picking weights p = if p = 0 then {0} else ∅) ∧
    ((∀ p, weights[p]? = some 0 → picking weights p = ∅) ↔ weights[0]? ≠ some 0) ∧
    ∀ (frame : SampleFrame ℝ) (n : SampleCount), frame.count = .ok n → ∀ s : S,
      let drawn := Draw.sampleOf RandomSource.uniform n s
      ∃ particles : Sample ℝ,
        (weighted values weights frame).run s = (frame.unit.apply particles, drawn.2) ∧
        particles.size = n.size ∧ ∀ i p, drawn.1.particle i ∈ picking weights p →
          values[p]? = some (particles.particle i) := by
  have hlength := h.length
  have hnonneg := h.nonneg
  have hpositive := h.positive
  have hzero : ∀ p, weights[p]? = some 0 → picking weights p = if p = 0 then {0} else ∅ :=
    fun p => picking_of_zero hnonneg hpositive
  refine ⟨fun u hu => ?_, fun p w hplace => ⟨fun u => ?_, ?_⟩, hzero, ⟨fun hnever hfirst => ?_,
    fun hfirst p hplace => ?_⟩, fun frame n hcount s => ?_⟩
  · obtain ⟨p, hp, hbelow, habove⟩ := exists_place hpositive hu.2
    refine ⟨p, ⟨hlength ▸ hp, hu, pickPlace_eq hnonneg hp hbelow habove⟩, fun q hq => ?_⟩
    exact hq.2.2.symm.trans (pickPlace_eq hnonneg hp hbelow habove)
  · exact mem_picking hnonneg hpositive (List.getElem?_eq_some_iff.mp hplace).1
  · rw [shareBefore_succ hplace, add_sub_cancel_left]
  · -- zero picks the first place
    have hsome := hzero 0 hfirst
    rw [if_pos rfl, hnever 0 hfirst] at hsome
    exact Set.singleton_ne_empty 0 hsome.symm
  · have hlater : p ≠ 0 := by
      rintro rfl
      exact hfirst hplace
    rw [hzero p hplace, if_neg hlater]
  · refine ⟨_, weighted_run h hcount s, ?_, fun i p hp => ?_⟩
    · rw [Sample.size_map, Draw.size_sampleOf]
    · have hplace : p < values.length := by
        rw [← hp.2, hlength]
        exact pickPlace_lt (List.ne_nil_of_length_pos (hlength ▸ List.length_pos_iff.mpr h.nonempty)) _
      have hvalue := List.getElem?_eq_getElem hplace
      rw [hvalue, Sample.particle_map, pick_eq hp.2 hvalue]

/-! ### A first value without a weight -/

theorem weighs_sevenEight : Weighs [7, 8] [0, 1] :=
  ⟨List.cons_ne_nil _ _, rfl, by simp, by simp⟩

/-- Seven without a weight and eight with one: zero picks seven, and all other numbers pick eight. -/
theorem sevenEight_picked :
    Weighs [7, 8] [0, 1] ∧ picking [0, 1] 0 = {0} ∧ picking [0, 1] 1 = Set.Ioo 0 1 := by
  obtain ⟨-, hintervals, hweightless, -⟩ :=
    weighted_inverts_shares (S := SteadySource) weighs_sevenEight
  have hseven : picking [0, 1] 0 = {0} := hweightless 0 rfl
  have hbefore : shareBefore [0, 1] 1 = 0 := by simp [shareBefore]
  have hall : shareBefore [0, 1] 2 = 1 := by simp [shareBefore]
  refine ⟨weighs_sevenEight, hseven, Set.ext fun u => ?_⟩
  rw [(hintervals 1 1 rfl).1 u, hbefore, hall, Set.mem_Ico, Set.mem_Ioo]
  constructor
  · rintro ⟨hu, hpos, -⟩
    exact ⟨hpos.resolve_left one_ne_zero, hu.2⟩
  · rintro ⟨hpos, hlt⟩
    exact ⟨⟨hpos.le, hlt⟩, .inr hpos, hlt.le⟩

/-- A value that weighs nothing is drawn when the uniform number is zero. -/
theorem weightless_seven_drawn :
    let source : SteadySource := ⟨⟨0, le_rfl, one_pos⟩, 0⟩
    let frame : SampleFrame ℝ := ⟨.ok ⟨1, by decide⟩, .none⟩
    ∃ q t, (weighted [7, 8] [0, 1] frame).run source = (.ok q, t) ∧ q.value.particle 0 = 7 := by
  intro source frame
  have hrun := weighted_run weighs_sevenEight (rfl : frame.count = .ok ⟨1, by decide⟩) source
  have hpick : pick [7, 8] [0, 1] 0 = 7 := by
    refine pick_eq (p := 0) ?_ rfl
    exact pickPlace_eq weighs_sevenEight.nonneg (by decide) (.inl rfl) (by simp [shareBefore])
  exact ⟨_, _, hrun, hpick⟩

end Ballpark.Sampler
