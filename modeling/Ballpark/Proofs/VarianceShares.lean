import Ballpark.Proofs.Bindings
import Ballpark.Proofs.Covariance
import Ballpark.Proofs.ParticleCount
import Ballpark.Proofs.StableSort
import Ballpark.Sensitivity

/-!
# Shares of the variance

What each input contributes to the variance of an output, told by what the output loses when the input
is held at its mean. An analysis has a result exactly if all the outputs it asks for exist
(`Sensitivity.exists_analyze_iff`). The result is an account of the variance (`Sensitivity.Accounts`):
contributions are not below zero and not above the whole, because no variance is below zero; and sorting
is stable, so equal contributions stay in the order of the inputs (`Sensitivity.ranked_pairwise`).
-/

namespace Ballpark

namespace Sensitivity

theorem positivePart_eq (x : ℝ) : positivePart x = max 0 x := by
  rw [positivePart, Scalar.isPositive_real, Scalar.ofNat_real, Nat.cast_zero]
  rcases lt_or_ge 0 x with h | h
  · rw [if_pos (decide_eq_true h), max_eq_right h.le]
  · rw [if_neg (by simpa using h), max_eq_left h]

/-! ## Contributions in order -/

section

variable (contributions : List (Contribution ℝ))

theorem ranked_perm : (ranked contributions).Perm contributions :=
  List.mergeSort_perm _ _

theorem ranked_trans (a b c : Contribution ℝ) (hab : Scalar.le b.variance a.variance = true)
    (hbc : Scalar.le c.variance b.variance = true) : Scalar.le c.variance a.variance = true := by
  simp only [Scalar.le_real, decide_eq_true_eq] at *
  exact hbc.trans hab

theorem ranked_total (a b : Contribution ℝ) :
    (Scalar.le b.variance a.variance || Scalar.le a.variance b.variance) = true := by
  simpa using le_total b.variance a.variance

theorem ranked_pairwise_le : (ranked contributions).Pairwise fun a b => b.variance ≤ a.variance :=
  (List.pairwise_mergeSort ranked_trans ranked_total contributions).imp fun h => by simpa using h

variable {contributions}

/-- **Larger contributions come first**, and equal ones stand to each other as they were given. -/
theorem ranked_pairwise {P : Contribution ℝ → Contribution ℝ → Prop} (h : contributions.Pairwise P) :
    (ranked contributions).Pairwise fun a b => b.variance < a.variance ∨ b.variance = a.variance ∧ P a b := by
  refine (pairwise_mergeSort_of_pairwise ranked_trans ranked_total h).imp fun {a b} hab => ?_
  simp only [Scalar.le_real, decide_eq_true_eq] at hab
  exact hab.1.lt_or_eq.imp_right fun heq => ⟨heq, hab.2 heq.ge⟩

end

/-! ## An analysis and what it computes -/

/-- The inputs that an output is computed from: as they are, and with each of them held at its mean. -/
noncomputable def trials (inputs : Bindings (Quantity ℝ)) : List (Bindings (Quantity ℝ)) :=
  inputs :: inputs.entries.map fun e => inputs.set e.1 (atMean e.2)

section

variable {inputs : Bindings (Quantity ℝ)} {compute : Bindings (Quantity ℝ) → Except (Fault ℝ) (Quantity ℝ)}
  {base : Quantity ℝ}

/-- The contributions of inputs to an output, in the order of the inputs. -/
noncomputable def shares (inputs : Bindings (Quantity ℝ)) (base : Quantity ℝ)
    (reduced : String × Quantity ℝ → Quantity ℝ) : List (Contribution ℝ) :=
  inputs.entries.map fun e => contribution base.variance e.1 e.2 (reduced e)

theorem analyze_eq : analyze inputs compute = do
    let base ← compute inputs
    let contributions ← inputs.entries.mapM fun e => do
      return contribution base.variance e.1 e.2 (← compute (inputs.set e.1 (atMean e.2)))
    return ofContributions base contributions := rfl

/-- **There is a result if every trial has an output**, and it is made of these outputs. -/
theorem analyze_of_ok {reduced : String × Quantity ℝ → Quantity ℝ} (hbase : compute inputs = .ok base)
    (hreduced : ∀ e ∈ inputs.entries, compute (inputs.set e.1 (atMean e.2)) = .ok (reduced e)) :
    analyze inputs compute = .ok (ofContributions base (shares inputs base reduced)) := by
  have hall : (inputs.entries.mapM fun e => do
      return contribution base.variance e.1 e.2 (← compute (inputs.set e.1 (atMean e.2)))) =
        .ok (inputs.entries.map fun e => contribution base.variance e.1 e.2 (reduced e)) := by
    refine mapM_of_ok fun e he => ?_
    rw [hreduced e he]
    rfl
  rw [analyze_eq, hbase]
  exact congrArg (· >>= fun contributions => pure (ofContributions base contributions)) hall

theorem ok_of_analyze {r : Sensitivity ℝ} (h : analyze inputs compute = .ok r) :
    ∃ base, compute inputs = .ok base ∧
      ∀ e ∈ inputs.entries, ∃ q, compute (inputs.set e.1 (atMean e.2)) = .ok q := by
  rw [analyze_eq] at h
  obtain ⟨base, hbase, h⟩ := ok_of_bind h
  obtain ⟨contributions, hall, -⟩ := ok_of_bind h
  refine ⟨base, hbase, fun e he => ?_⟩
  obtain ⟨c, hc⟩ := ok_of_mapM hall he
  obtain ⟨q, hq, -⟩ := ok_of_bind hc
  exact ⟨q, hq⟩

theorem analyze_eq_ok {r : Sensitivity ℝ} (h : analyze inputs compute = .ok r) :
    ∃ base reduced, compute inputs = .ok base ∧
      (∀ e ∈ inputs.entries, compute (inputs.set e.1 (atMean e.2)) = .ok (reduced e)) ∧
      r = ofContributions base (shares inputs base reduced) := by
  obtain ⟨base, hbase, hreduced⟩ := ok_of_analyze h
  have : Nonempty (Quantity ℝ) := ⟨base⟩
  choose! reduced hreduced using hreduced
  exact ⟨base, reduced, hbase, hreduced, Except.ok.inj (h.symm.trans (analyze_of_ok hbase hreduced))⟩

theorem mem_contributions {reduced : String × Quantity ℝ → Quantity ℝ} {share : Contribution ℝ}
    (h : share ∈ (ofContributions base (shares inputs base reduced)).contributions) :
    ∃ e ∈ inputs.entries, share = contribution base.variance e.1 e.2 (reduced e) := by
  obtain ⟨e, he, rfl⟩ := List.mem_map.mp ((ranked_perm _).mem_iff.mp h)
  exact ⟨e, he, rfl⟩

theorem exists_analyze_iff : (∃ r, analyze inputs compute = .ok r) ↔
    ∀ b ∈ trials inputs, ∃ q, compute b = .ok q := by
  rw [trials, List.forall_mem_cons, List.forall_mem_map]
  constructor
  · rintro ⟨r, hr⟩
    obtain ⟨base, hbase, hreduced⟩ := ok_of_analyze hr
    exact ⟨⟨base, hbase⟩, hreduced⟩
  · rintro ⟨⟨base, hbase⟩, hreduced⟩
    have : Nonempty (Quantity ℝ) := ⟨base⟩
    choose! reduced hreduced using hreduced
    exact ⟨_, analyze_of_ok hbase hreduced⟩

end

/-! ## What contributions add up to -/

theorem variance_nonneg (q : Quantity ℝ) : 0 ≤ q.variance := by
  have hfits : q.value.Fits q.value.size := .inr rfl
  rw [Quantity.variance_eq hfits]
  exact covariance_self_nonneg _

theorem ofContributions_unexplained (base : Quantity ℝ) (contributions : List (Contribution ℝ)) :
    (ofContributions base contributions).unexplained =
      max 0 (base.variance - (contributions.map (·.variance)).sum) := by
  have hsum : ∀ (start : ℝ) (cs : List (Contribution ℝ)),
      cs.foldl (fun sum c => sum + c.variance) start = start + (cs.map (·.variance)).sum := by
    intro start cs
    rw [← Scalar.runningTotal_eq, Scalar.runningTotal, List.foldl_map]
  rw [ofContributions, positivePart_eq, hsum, Scalar.ofNat_real, Nat.cast_zero, zero_add]

/-- An account of a variance: what inputs, given by name, contribute to it. -/
structure Accounts (s : Sensitivity ℝ) (names : List String) : Prop where
  /-- each input is there once -/
  perm : (s.contributions.map (·.name)).Perm names
  /-- the largest first, equal ones in the order of the inputs -/
  ordered : s.contributions.Pairwise fun a b => b.variance < a.variance ∨
    b.variance = a.variance ∧ names.idxOf a.name < names.idxOf b.name
  /-- no input explains more than there is -/
  within : ∀ c ∈ s.contributions, c.variance ∈ Set.Icc 0 s.variance
  rest : s.unexplained ∈ Set.Icc 0 s.variance
  /-- nothing is left out, unless inputs explain more together than there is -/
  complete : 0 < s.variance → (s.contributions.map (·.variance)).sum ≤ s.variance →
    (s.contributions.map (·.percent)).sum + s.unexplainedPercent = 100

theorem contribution_variance (whole : ℝ) (name : String) (input reduced : Quantity ℝ) :
    (contribution whole name input reduced).variance = max 0 (whole - reduced.variance) := by
  rw [contribution, positivePart_eq]

theorem contribution_percent {whole : ℝ} (h : 0 < whole) (name : String) (input reduced : Quantity ℝ) :
    (contribution whole name input reduced).percent =
      (contribution whole name input reduced).variance * (100 / whole) := by
  rw [contribution_variance, contribution, positivePart_eq, percentOf, Scalar.isPositive_real,
    if_pos (decide_eq_true h), Scalar.ofNat_real]
  push_cast
  ring

section

variable {inputs : Bindings (Quantity ℝ)} (base : Quantity ℝ) (reduced : String × Quantity ℝ → Quantity ℝ)

theorem shares_name : (shares inputs base reduced).map (·.name) = inputs.names := by
  rw [shares, List.map_map]
  rfl

theorem shares_within {c : Contribution ℝ} (h : c ∈ shares inputs base reduced) :
    c.variance ∈ Set.Icc 0 base.variance := by
  obtain ⟨e, -, rfl⟩ := List.mem_map.mp h
  rw [contribution_variance]
  exact ⟨le_max_left _ _, max_le (variance_nonneg base) (sub_le_self _ (variance_nonneg _))⟩

/-- In percent of the whole the contributions and the rest make a hundred. -/
theorem percents_sum (hpos : 0 < base.variance)
    (hsum : ((shares inputs base reduced).map (·.variance)).sum ≤ base.variance) :
    ((shares inputs base reduced).map (·.percent)).sum +
      (ofContributions base (shares inputs base reduced)).unexplainedPercent = 100 := by
  have hpercents : ((shares inputs base reduced).map (·.percent)).sum =
      ((shares inputs base reduced).map (·.variance)).sum * (100 / base.variance) := by
    rw [← List.sum_map_mul_right]
    refine congrArg List.sum (List.map_congr_left fun c hc => ?_)
    obtain ⟨e, -, rfl⟩ := List.mem_map.mp hc
    exact contribution_percent hpos _ _ _
  have hrest : (ofContributions base (shares inputs base reduced)).unexplainedPercent =
      (base.variance - ((shares inputs base reduced).map (·.variance)).sum) * (100 / base.variance) := by
    have hwhole : (ofContributions base (shares inputs base reduced)).variance = base.variance := rfl
    have hnot : ¬base.variance ≤ 0 := not_le.mpr hpos
    rw [unexplainedPercent, hwhole, Scalar.le_real, Scalar.ofNat_real, Nat.cast_zero,
      if_neg (by simpa using hnot), ofContributions_unexplained, max_eq_right (sub_nonneg.mpr hsum),
      Scalar.ofNat_real]
    push_cast
    ring
  rw [hpercents, hrest, ← add_mul, add_sub_cancel, mul_div_cancel₀ _ hpos.ne']

/-- **What inputs contribute is accounted for.** -/
theorem accounts_shares (hnames : inputs.names.Nodup) :
    Accounts (ofContributions base (shares inputs base reduced)) inputs.names := by
  have hperm := ranked_perm (shares inputs base reduced)
  have hnonneg : 0 ≤ ((shares inputs base reduced).map (·.variance)).sum :=
    List.sum_nonneg fun x hx => by
      obtain ⟨c, hc, rfl⟩ := List.mem_map.mp hx
      exact (shares_within base reduced hc).1
  refine ⟨shares_name base reduced ▸ hperm.map _, ranked_pairwise ?_,
    fun c hc => shares_within base reduced (hperm.mem_iff.mp hc), ?_, fun hpos hsum => ?_⟩
  · have hplaces := pairwise_idxOf hnames
    rw [← shares_name base reduced, List.pairwise_map] at hplaces
    rwa [← shares_name base reduced]
  · rw [ofContributions_unexplained]
    exact ⟨le_max_left _ _, max_le (variance_nonneg base) (sub_le_self _ hnonneg)⟩
  · have hvariances : ((ranked (shares inputs base reduced)).map (·.variance)).sum =
        ((shares inputs base reduced).map (·.variance)).sum := (hperm.map _).sum_eq
    have hpercents : ((ranked (shares inputs base reduced)).map (·.percent)).sum =
        ((shares inputs base reduced).map (·.percent)).sum := (hperm.map _).sum_eq
    exact (congrArg (· + _) hpercents).trans (percents_sum base reduced hpos (hvariances ▸ hsum))

end

end Sensitivity

end Ballpark
