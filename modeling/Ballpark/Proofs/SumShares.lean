import Ballpark.Proofs.VarianceShares

/-!
# Shares of a sum

If an output is a sum of inputs with coefficients, the contributions of the inputs are known. With one
input held at its mean its term is a constant, the other terms are as they were; so the output loses the
variance of the term and twice its covariance with the others (`Sensitivity.variance_lost`). Where the
inputs do not vary together that is the variance of the term alone, and these variances add up to the
whole (`Sensitivity.variance_of_uncorrelated`).
-/

namespace Ballpark

namespace Sensitivity

/-- The sum of the values of inputs, each times the coefficient of its name. -/
noncomputable def weightedSum (c : String → ℝ) : List (String × Quantity ℝ) → Value ℝ
  | [] => .scalar 0
  | e :: rest => (e.2.value.map (c e.1 * ·)).zipWith (· + ·) (weightedSum c rest)

section

variable {n : ℕ} (hn : 0 < n) (c : String → ℝ) {entries : List (String × Quantity ℝ)}
  (hfits : ∀ e ∈ entries, e.2.value.Fits n)
include hn hfits

theorem fits_weightedSum : (weightedSum c entries).Fits n := by
  induction entries with
  | nil => exact .inl rfl
  | cons e rest ih =>
    obtain ⟨he, hrest⟩ := List.forall_mem_cons.mp hfits
    exact Value.fits_zipWith _ (he.map _) (ih hrest) hn

theorem particle_weightedSum {i : ℕ} (hi : i < n) : (weightedSum c entries).particle i =
    (entries.map fun e => c e.1 * e.2.value.particle i).sum := by
  induction entries with
  | nil => exact Value.particle_scalar 0 i
  | cons e rest ih =>
    obtain ⟨he, hrest⟩ := List.forall_mem_cons.mp hfits
    rw [weightedSum, Value.particle_zipWith_of_fits _ (he.map _) (fits_weightedSum hn c hrest) hi,
      Value.particle_map, ih hrest, List.map_cons, List.sum_cons]

theorem variance_weightedSum (u : CompoundUnit ℝ) : Quantity.variance ⟨weightedSum c entries, u⟩ =
    covariance n (fun i => (entries.map fun e => c e.1 * e.2.value.particle i).sum)
      (fun i => (entries.map fun e => c e.1 * e.2.value.particle i).sum) := by
  have hparticle : ∀ i < n, (weightedSum c entries).particle i =
      (entries.map fun e => c e.1 * e.2.value.particle i).sum :=
    fun i hi => particle_weightedSum hn c hfits hi
  rw [Quantity.variance_eq (q := ⟨weightedSum c entries, u⟩) (fits_weightedSum hn c hfits)]
  exact covariance_congr hparticle hparticle

/-- **What a sum loses with an input held at its mean**: the input's variance, and twice its covariance
with the other inputs. -/
theorem variance_lost (hnames : (entries.map (·.1)).Nodup) {e : String × Quantity ℝ} (he : e ∈ entries)
    (u w : CompoundUnit ℝ) :
    Quantity.variance ⟨weightedSum c entries, u⟩ -
        Quantity.variance ⟨weightedSum c (Bindings.setEntries e.1 (atMean e.2) entries), w⟩ =
      c e.1 ^ 2 * covariance n e.2.value.particle e.2.value.particle +
        2 * ((Bindings.others e.1 entries).map fun f =>
          c e.1 * c f.1 * covariance n e.2.value.particle f.2.value.particle).sum := by
  set rest := Bindings.others e.1 entries
  set held := Bindings.setEntries e.1 (atMean e.2) entries
  -- only one entry is held, so both sums are a term and the same rest
  have hperm : entries.Perm (e :: rest) := Bindings.perm_others hnames he
  have hpermHeld : held.Perm ((e.1, atMean e.2) :: rest) := Bindings.perm_setEntries hnames he _
  have hfitsHeld : ∀ f ∈ held, f.2.value.Fits n := by
    intro f hf
    rcases List.mem_cons.mp (hpermHeld.mem_iff.mp hf) with rfl | hf
    · exact .inl rfl
    · exact hfits f (List.mem_of_mem_filter hf)
  have hsum : ∀ i, (entries.map fun f => c f.1 * f.2.value.particle i).sum =
      c e.1 * e.2.value.particle i + (rest.map fun f => c f.1 * f.2.value.particle i).sum :=
    fun i => ((hperm.map _).sum_eq).trans (List.sum_cons)
  have hsumHeld : ∀ i, (held.map fun f => c f.1 * f.2.value.particle i).sum =
      c e.1 * e.2.mean + (rest.map fun f => c f.1 * f.2.value.particle i).sum := by
    intro i
    rw [(hpermHeld.map _).sum_eq, List.map_cons, List.sum_cons]
    congr 2
    exact Value.particle_scalar _ i
  rw [variance_weightedSum hn c hfits, variance_weightedSum hn c hfitsHeld, funext hsum, funext hsumHeld,
    covariance_add_self_sub, covariance_mul_self, covariance_mul_sum]

/-- The variance of a sum of inputs that do not vary together. -/
theorem variance_of_uncorrelated (hnames : (entries.map (·.1)).Nodup)
    (h : ∀ e ∈ entries, ∀ f ∈ Bindings.others e.1 entries,
      covariance n e.2.value.particle f.2.value.particle = 0) (u : CompoundUnit ℝ) :
    Quantity.variance ⟨weightedSum c entries, u⟩ =
      (entries.map fun e => c e.1 ^ 2 * covariance n e.2.value.particle e.2.value.particle).sum := by
  rw [variance_weightedSum hn c hfits, covariance_sum_left]
  refine congrArg List.sum (List.map_congr_left fun e he => ?_)
  have hzero : ((Bindings.others e.1 entries).map fun f =>
      c f.1 * covariance n e.2.value.particle f.2.value.particle).sum = 0 :=
    List.sum_eq_zero fun x hx => by
      obtain ⟨f, hf, rfl⟩ := List.mem_map.mp hx
      rw [h e he f hf, mul_zero]
  rw [covariance_sum_right, ((Bindings.perm_others hnames he).map _).sum_eq, List.map_cons, List.sum_cons,
    hzero, add_zero, ← mul_assoc, sq]

end

/-- The inputs are `n` particles each. -/
def Sampled (n : ℕ) (inputs : Bindings (Quantity ℝ)) : Prop :=
  ∀ e ∈ inputs.entries, ∃ s, e.2.value = .sample s ∧ s.size = n

/-- The output is a sum of the inputs with coefficients, whichever input is held. -/
def IsWeightedSum (c : String → ℝ) (inputs : Bindings (Quantity ℝ))
    (compute : Bindings (Quantity ℝ) → Except (Fault ℝ) (Quantity ℝ)) : Prop :=
  ∀ b ∈ trials inputs, ∃ u, compute b = .ok ⟨weightedSum c b.entries, u⟩

/-- What an input adds to the variance of a sum. -/
noncomputable def added (c : String → ℝ) (entries : List (String × Quantity ℝ)) (e : String × Quantity ℝ) : ℝ :=
  c e.1 ^ 2 * e.2.variance +
    2 * ((Bindings.others e.1 entries).map fun f => c e.1 * c f.1 * e.2.covariance f.2).sum

section

variable {n : ℕ} {c : String → ℝ} {inputs : Bindings (Quantity ℝ)}
  {compute : Bindings (Quantity ℝ) → Except (Fault ℝ) (Quantity ℝ)}

theorem Sampled.size_eq (h : Sampled n inputs) {e : String × Quantity ℝ} (he : e ∈ inputs.entries) :
    e.2.value.size = n := by
  obtain ⟨s, hs, hsize⟩ := h e he
  rw [hs]
  exact hsize

theorem Sampled.fits (h : Sampled n inputs) : ∀ e ∈ inputs.entries, e.2.value.Fits n :=
  fun _ he => .inr (h.size_eq he)

/-- Without inputs the number of particles does not matter. -/
theorem Sampled.exists_pos (h : Sampled n inputs) : ∃ m, 0 < m ∧ Sampled m inputs := by
  rcases Nat.eq_zero_or_pos n with rfl | hpos
  · refine ⟨1, one_pos, fun e he => ?_⟩
    obtain ⟨s, -, hsize⟩ := h e he
    exact absurd hsize s.size_pos.ne'
  · exact ⟨n, hpos, h⟩

theorem Sampled.covariance_eq (h : Sampled n inputs) {e f : String × Quantity ℝ} (he : e ∈ inputs.entries)
    (hf : f ∈ inputs.entries) :
    e.2.covariance f.2 = covariance n e.2.value.particle f.2.value.particle :=
  Quantity.covariance_eq (h.size_eq he) (h.size_eq hf)

/-- In a sum, what an input contributes is what it adds to the variance. -/
theorem variance_sub_eq_added (hnames : inputs.names.Nodup) (h : Sampled n inputs) {e : String × Quantity ℝ}
    (he : e ∈ inputs.entries) (u w : CompoundUnit ℝ) :
    Quantity.variance ⟨weightedSum c inputs.entries, u⟩ -
        Quantity.variance ⟨weightedSum c (inputs.set e.1 (atMean e.2)).entries, w⟩ =
      added c inputs.entries e := by
  obtain ⟨m, hm, h⟩ := h.exists_pos
  have hothers : ((Bindings.others e.1 inputs.entries).map fun f => c e.1 * c f.1 * e.2.covariance f.2) =
      (Bindings.others e.1 inputs.entries).map fun f =>
        c e.1 * c f.1 * covariance m e.2.value.particle f.2.value.particle :=
    List.map_congr_left fun f hf => by rw [h.covariance_eq he (List.mem_of_mem_filter hf)]
  rw [added, hothers, Quantity.variance_eq (h.fits e he)]
  exact variance_lost hm c h.fits hnames he u w

theorem added_of_uncorrelated {e : String × Quantity ℝ}
    (h : ∀ f ∈ Bindings.others e.1 inputs.entries, e.2.covariance f.2 = 0) :
    added c inputs.entries e = c e.1 ^ 2 * e.2.variance := by
  have hzero : ((Bindings.others e.1 inputs.entries).map fun f => c e.1 * c f.1 * e.2.covariance f.2).sum = 0 :=
    List.sum_eq_zero fun x hx => by
      obtain ⟨f, hf, rfl⟩ := List.mem_map.mp hx
      rw [h f hf, mul_zero]
  rw [added, hzero, mul_zero, add_zero]

/-- The shares of a sum. -/
theorem analyze_of_isWeightedSum (hnames : inputs.names.Nodup) (h : Sampled n inputs)
    (hsum : IsWeightedSum c inputs compute) : ∃ base reduced,
      analyze inputs compute = .ok (ofContributions base (shares inputs base reduced)) ∧
      (∃ u, base = ⟨weightedSum c inputs.entries, u⟩) ∧
      ∀ e ∈ inputs.entries, base.variance - (reduced e).variance = added c inputs.entries e := by
  rw [IsWeightedSum, trials, List.forall_mem_cons, List.forall_mem_map] at hsum
  obtain ⟨⟨u, hbase⟩, hreduced⟩ := hsum
  have : Nonempty (CompoundUnit ℝ) := ⟨u⟩
  choose! w hreduced using hreduced
  exact ⟨_, fun e => ⟨weightedSum c (inputs.set e.1 (atMean e.2)).entries, w e⟩,
    analyze_of_ok hbase hreduced, ⟨u, rfl⟩, fun e he => variance_sub_eq_added hnames h he u (w e)⟩

/-- The shares of a sum of inputs that do not vary together leave nothing over. -/
theorem shares_sum_of_uncorrelated (hnames : inputs.names.Nodup) (h : Sampled n inputs) (u : CompoundUnit ℝ)
    (hzero : ∀ e ∈ inputs.entries, ∀ f ∈ Bindings.others e.1 inputs.entries, e.2.covariance f.2 = 0) :
    (inputs.entries.map fun e => max 0 (added c inputs.entries e)).sum =
      Quantity.variance ⟨weightedSum c inputs.entries, u⟩ := by
  obtain ⟨m, hm, h⟩ := h.exists_pos
  rw [variance_of_uncorrelated hm c h.fits hnames
    (fun e he f hf => h.covariance_eq he (List.mem_of_mem_filter hf) ▸ hzero e he f hf)]
  refine congrArg List.sum (List.map_congr_left fun e he => ?_)
  rw [added_of_uncorrelated (hzero e he), ← Quantity.variance_eq (h.fits e he),
    max_eq_right (mul_nonneg (sq_nonneg _) (variance_nonneg _))]

end

/-- **Shares of the variance are bounded, complete, and exact for sums.** An analysis has a result if the
output can be computed from the inputs and from the inputs with any one of them held at its mean. The
result accounts for the variance of the output: each input contributes what the output loses when it is
held. If the output is a sum of inputs with coefficients, that is the variance of its term and twice the
covariance of the term with the others, if this is not below zero; so inputs that do not vary with others
contribute the variance of their terms, and if none do, nothing is left over. -/
theorem analyze_accounts {inputs : Bindings (Quantity ℝ)} (hnames : inputs.names.Nodup)
    (compute : Bindings (Quantity ℝ) → Except (Fault ℝ) (Quantity ℝ)) :
    ((∃ r, analyze inputs compute = .ok r) ↔ ∀ b ∈ trials inputs, ∃ q, compute b = .ok q) ∧
    (∀ r, analyze inputs compute = .ok r → r.Accounts inputs.names ∧
      ∃ base, compute inputs = .ok base ∧ r.variance = base.variance ∧
        ∀ share ∈ r.contributions, ∃ input reduced, (share.name, input) ∈ inputs.entries ∧
          compute (inputs.set share.name (atMean input)) = .ok reduced ∧
          share.variance = max 0 (base.variance - reduced.variance) ∧
          share.mean = input.mean ∧ share.deviation = input.deviation) ∧
    ∀ (c : String → ℝ) (n : ℕ), Sampled n inputs → IsWeightedSum c inputs compute →
      ∃ r, analyze inputs compute = .ok r ∧
        (∀ share ∈ r.contributions, ∀ input, (share.name, input) ∈ inputs.entries →
          share.variance = max 0 (c share.name ^ 2 * input.variance +
            2 * ((Bindings.others share.name inputs.entries).map fun f =>
              c share.name * c f.1 * input.covariance f.2).sum) ∧
          ((∀ f ∈ Bindings.others share.name inputs.entries, input.covariance f.2 = 0) →
            share.variance = c share.name ^ 2 * input.variance)) ∧
        ((∀ e ∈ inputs.entries, ∀ f ∈ Bindings.others e.1 inputs.entries, e.2.covariance f.2 = 0) →
          r.unexplained = 0) := by
  refine ⟨exists_analyze_iff, fun r hr => ?_, fun c n hsampled hsum => ?_⟩
  · obtain ⟨base, reduced, hbase, hreduced, rfl⟩ := analyze_eq_ok hr
    refine ⟨accounts_shares base reduced hnames, base, hbase, rfl, fun share hshare => ?_⟩
    obtain ⟨e, he, rfl⟩ := mem_contributions hshare
    exact ⟨e.2, reduced e, he, hreduced e he, contribution_variance _ _ _ _, rfl, rfl⟩
  · obtain ⟨base, reduced, hr, ⟨u, rfl⟩, hadded⟩ := analyze_of_isWeightedSum hnames hsampled hsum
    refine ⟨_, hr, fun share hshare input hinput => ?_, fun hzero => ?_⟩
    · obtain ⟨e, he, rfl⟩ := mem_contributions hshare
      -- names stand once, so the share belongs to the input that it was made of
      obtain rfl : input = e.2 := congrArg Prod.snd (List.inj_on_of_nodup_map hnames hinput he rfl)
      rw [contribution_variance, hadded e he]
      refine ⟨rfl, fun hzero => ?_⟩
      -- without covariances the loss is a square times a variance, which is not below zero
      rw [added_of_uncorrelated hzero, max_eq_right (mul_nonneg (sq_nonneg _) (variance_nonneg _))]
      rfl
    · have hvariances : (shares inputs ⟨weightedSum c inputs.entries, u⟩ reduced).map (·.variance) =
          inputs.entries.map fun e => max 0 (added c inputs.entries e) := by
        rw [shares, List.map_map]
        exact List.map_congr_left fun e he => (contribution_variance _ _ _ _).trans (by rw [hadded e he])
      rw [ofContributions_unexplained, hvariances, shares_sum_of_uncorrelated hnames hsampled u hzero,
        sub_self, max_self]

/-! ## A sum of quantities -/

/-- The sum of plain quantities, each times the coefficient of its name. -/
noncomputable def sumOf (c : String → ℝ) : List (String × Quantity ℝ) → Except (Fault ℝ) (Quantity ℝ)
  | [] => .ok (.plain 0)
  | e :: rest => do (← (Quantity.plain (c e.1)).multiply e.2).add (← sumOf c rest)

theorem multiply_plain (x : ℝ) (v : Value ℝ) :
    (Quantity.plain x).multiply ⟨v, .one⟩ = .ok ⟨v.map (x * ·), .one⟩ := by
  have hunit : (CompoundUnit.one : CompoundUnit ℝ).multiply .one = .ok (.one, 1) := by
    show (CompoundUnit.Merging.finish ⟨Scalar.ofNat 1, []⟩ : Except (Fault ℝ) _) = _
    simp [CompoundUnit.Merging.finish, CompoundUnit.ordered, CompoundUnit.one]
    rfl
  have hvalue : (Value.scalar x).zipWith (fun x y => x * y * 1) v = v.map (x * ·) := by
    simp only [Value.scalar_zipWith, mul_one]
  rw [Quantity.multiply, Quantity.plain, hunit]
  exact congrArg (fun w => (.ok ⟨w, .one⟩ : Except (Fault ℝ) (Quantity ℝ))) hvalue

theorem add_plain (v w : Value ℝ) : Quantity.add ⟨v, .one⟩ ⟨w, .one⟩ = .ok ⟨v.zipWith (· + ·) w, .one⟩ := by
  have hfactor : Quantity.commonFactor "add" ⟨v, .one⟩ (⟨w, .one⟩ : Quantity ℝ) = .ok 1 := by
    have hknown : (CompoundUnit.one : CompoundUnit ℝ).Known := CompoundUnit.known_one
    refine (Quantity.commonFactor_eq (a := ⟨v, .one⟩) (b := ⟨w, .one⟩) hknown hknown rfl).trans ?_
    exact congrArg _ (div_self hknown.size_pos.ne')
  rw [Quantity.add, hfactor]
  show Except.ok _ = _
  simp only [mul_one]

/-- Plain quantities are added up to the sum of their values. -/
theorem sumOf_eq (c : String → ℝ) {entries : List (String × Quantity ℝ)}
    (h : ∀ e ∈ entries, e.2.unit = .one) : sumOf c entries = .ok ⟨weightedSum c entries, .one⟩ := by
  induction entries with
  | nil => rfl
  | cons e rest ih =>
    obtain ⟨he, hrest⟩ := List.forall_mem_cons.mp h
    have hone : e.2 = ⟨e.2.value, .one⟩ := by rw [← he]
    rw [sumOf, hone, multiply_plain, ih hrest]
    exact add_plain _ _

theorem isWeightedSum_sumOf (c : String → ℝ) {inputs : Bindings (Quantity ℝ)} (hnames : inputs.names.Nodup)
    (h : ∀ e ∈ inputs.entries, e.2.unit = .one) : IsWeightedSum c inputs fun b => sumOf c b.entries := by
  rw [IsWeightedSum, trials, List.forall_mem_cons, List.forall_mem_map]
  refine ⟨⟨.one, sumOf_eq c h⟩, fun e he => ⟨.one, sumOf_eq c fun f hf => ?_⟩⟩
  rw [Bindings.set, Bindings.setEntries_of_mem hnames (List.mem_map_of_mem he)] at hf
  obtain ⟨g, hg, rfl⟩ := List.mem_map.mp hf
  split
  · exact h e he
  · exact h g hg

/-- Two inputs that do not vary together, the first of them counted three times. -/
theorem analyze_accounts_two : (⟨[("a", ⟨.sample ⟨0, [0, 2, 2]⟩, .one⟩),
      ("b", ⟨.sample ⟨0, [4, 0, 4]⟩, .one⟩)]⟩ : Bindings (Quantity ℝ)).names.Nodup ∧
    ∃ r, analyze ⟨[("a", ⟨.sample ⟨0, [0, 2, 2]⟩, .one⟩), ("b", ⟨.sample ⟨0, [4, 0, 4]⟩, .one⟩)]⟩
      (fun b => sumOf (fun name => if name = "a" then 3 else 1) b.entries) = .ok r ∧ r.unexplained = 0 := by
  set inputs : Bindings (Quantity ℝ) :=
    ⟨[("a", ⟨.sample ⟨0, [0, 2, 2]⟩, .one⟩), ("b", ⟨.sample ⟨0, [4, 0, 4]⟩, .one⟩)]⟩ with hinputs
  have hnames : inputs.names.Nodup := by simp [hinputs, Bindings.names]
  have hplain : ∀ e ∈ inputs.entries, e.2.unit = .one := by simp [hinputs]
  have hsampled : Sampled 4 inputs := by simp [Sampled, hinputs, Sample.size]
  have hcovariance : (⟨.sample ⟨0, [0, 2, 2]⟩, .one⟩ : Quantity ℝ).covariance ⟨.sample ⟨0, [4, 0, 4]⟩, .one⟩ = 0 := by
    rw [Quantity.covariance_eq (n := 4) rfl rfl]
    norm_num [covariance, average, Finset.sum_range_succ, Value.particle, Value.particles, Sample.particle,
      Sample.toList, Sample.size]
  obtain ⟨-, -, hsum⟩ := analyze_accounts hnames (fun b => sumOf (fun name => if name = "a" then 3 else 1) b.entries)
  obtain ⟨r, hr, -, hrest⟩ := hsum _ 4 hsampled (isWeightedSum_sumOf _ hnames hplain)
  refine ⟨hnames, r, hr, hrest ?_⟩
  have hswap : (⟨.sample ⟨0, [4, 0, 4]⟩, .one⟩ : Quantity ℝ).covariance ⟨.sample ⟨0, [0, 2, 2]⟩, .one⟩ = 0 := by
    rw [Quantity.covariance_eq (n := 4) rfl rfl, covariance_comm, ← Quantity.covariance_eq (n := 4) rfl rfl]
    exact hcovariance
  simp [hinputs, Bindings.others, hcovariance, hswap]

end Sensitivity

end Ballpark
