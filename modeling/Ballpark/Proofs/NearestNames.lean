import Ballpark.Proofs.StableSort
import Ballpark.Suggestion
import Mathlib.Data.Finset.Card
import Mathlib.Data.List.Induction

/-!
# Nearest names

The names that a message suggests are the first ones in an order of all candidates (`Suggestion.Precedes`):
nearer ones come first, equally near ones as they were given. Candidates that are given again stay at their
first place (`Suggestion.pairwise_distinct`), the near ones among them are sorted without changing the order
of equally near ones, and what is cut off at the end comes behind all that stays
(`Suggestion.isNearest_nearest`).
-/

namespace Ballpark.Suggestion

/-! ## Candidates at their first places -/

theorem distinct_append (names : List String) (name : String) : distinct (names ++ [name]) =
    if name ∈ distinct names then distinct names else distinct names ++ [name] := by
  rw [distinct, List.foldl_append]
  exact if_congr List.contains_iff_mem rfl rfl

theorem mem_distinct {name : String} {names : List String} : name ∈ distinct names ↔ name ∈ names := by
  induction names using List.reverseRecOn with
  | nil => exact Iff.rfl
  | append_singleton names last ih =>
    rw [distinct_append, List.mem_append, List.mem_singleton, ← ih]
    split
    · rename_i hlast
      exact ⟨.inl, fun h => h.elim id fun heq => heq ▸ hlast⟩
    · rw [List.mem_append, List.mem_singleton]

/-- Each name stands where it was given first. -/
theorem pairwise_distinct (names : List String) :
    (distinct names).Pairwise fun a b => names.idxOf a < names.idxOf b := by
  induction names using List.reverseRecOn with
  | nil => exact .nil
  | append_singleton names last ih =>
    have hkept : (distinct names).Pairwise fun a b =>
        (names ++ [last]).idxOf a < (names ++ [last]).idxOf b := by
      refine ih.imp_of_mem fun {a b} ha hb hlt => ?_
      rwa [List.idxOf_append_of_mem (mem_distinct.mp ha), List.idxOf_append_of_mem (mem_distinct.mp hb)]
    rw [distinct_append]
    split
    · exact hkept
    · rename_i hlast
      rw [mem_distinct] at hlast
      refine List.pairwise_append.mpr ⟨hkept, List.pairwise_singleton _ _, fun a ha b hb => ?_⟩
      rw [List.mem_singleton.mp hb, List.idxOf_append_of_mem (mem_distinct.mp ha),
        List.idxOf_append_of_notMem hlast]
      exact Nat.lt_add_right _ (List.idxOf_lt_length_of_mem (mem_distinct.mp ha))

/-! ## The order of the candidates -/

/-- The edit distance of two names without regard to case. -/
def distance (name candidate : String) : Nat :=
  Text.editDistanceList (Text.lower name.toList) (Text.lower candidate.toList)

/-- A name is near enough to be suggested, and it is not the same name but for case. -/
def Qualifies (name : String) (limit : Int) (candidate : String) : Prop :=
  1 ≤ distance name candidate ∧ (distance name candidate : Int) ≤ limit

instance (name : String) (limit : Int) : DecidablePred (Qualifies name limit) :=
  fun _ => inferInstanceAs (Decidable (_ ∧ _))

/-- A candidate is nearer than another one, or equally near and given first. -/
def Precedes (name : String) (candidates : List String) (a b : String) : Prop :=
  distance name a < distance name b ∨
    distance name a = distance name b ∧ candidates.idxOf a < candidates.idxOf b

theorem Precedes.ne {name a b : String} {candidates : List String} (h : Precedes name candidates a b) :
    a ≠ b := by
  rintro rfl
  exact h.elim (Nat.lt_irrefl _) fun h => Nat.lt_irrefl _ h.2

/-- Names that are the first of the candidates that qualify. -/
structure IsNearest (name : String) (candidates : List String) (limit : Int) (count : Nat)
    (names : List String) : Prop where
  nodup : names.Nodup
  /-- Each is a candidate between one and `limit` edits away. -/
  qualifies : ∀ c ∈ names, c ∈ candidates ∧ Qualifies name limit c
  /-- Nearer ones come first, equally near ones in the order of their first occurrences. -/
  ordered : names.Pairwise (Precedes name candidates)
  /-- There are as many as asked for, unless fewer candidates qualify. -/
  length_eq : names.length = min count (candidates.toFinset.filter (Qualifies name limit)).card
  /-- What is left out comes behind all that is suggested. -/
  left_out : ∀ c ∈ candidates, Qualifies name limit c → c ∉ names →
    ∀ r ∈ names, Precedes name candidates r c

section

variable (name : String) (candidates : List String) (limit : Int)

/-- The candidates that qualify, at their first places. -/
def near : List String :=
  (distinct candidates).filter fun c => Qualifies name limit c

theorem qualifying_eq : qualifying name candidates limit =
    (near name candidates limit).map fun c => ⟨distance name c, c⟩ := by
  rw [qualifying, near, ← List.filterMap_eq_map, ← List.filterMap_eq_filter, List.filterMap_filterMap]
  refine congrArg (List.filterMap · (distinct candidates)) (funext fun c => ?_)
  have hnear : (0 < distance name c && (distance name c : Int) ≤ limit) = decide (Qualifies name limit c) := by
    rw [← Bool.decide_and]
    rfl
  refine (congrArg (if · then some (Scored.mk (distance name c) c) else none) hnear).trans ?_
  by_cases hc : Qualifies name limit c <;> simp [Option.guard, hc]

/-- The names that qualify, in the order in which they are suggested. -/
def ranked : List String :=
  (near name candidates limit).mergeSort fun a b => distance name a ≤ distance name b

theorem nearest_eq (count : Nat) :
    nearest name candidates limit count = (ranked name candidates limit).take count := by
  have hnames : ((qualifying name candidates limit).mergeSort fun a b => a.distance ≤ b.distance).map
      (·.name) = ranked name candidates limit := by
    rw [qualifying_eq, ← List.map_mergeSort (r := fun a b => distance name a ≤ distance name b)
      (fun _ _ _ _ => rfl), List.map_map]
    exact List.map_id _
  have hcount : ¬(count : Int) < 0 := Int.not_lt.mpr (Int.natCast_nonneg count)
  rw [nearest]
  simp only [hnames, firstItems, if_neg hcount, Int.natAbs_natCast]

theorem ranked_perm : (ranked name candidates limit).Perm (near name candidates limit) :=
  List.mergeSort_perm _ _

theorem mem_ranked {c : String} :
    c ∈ ranked name candidates limit ↔ c ∈ candidates ∧ Qualifies name limit c := by
  rw [(ranked_perm name candidates limit).mem_iff, near, List.mem_filter, mem_distinct, decide_eq_true_eq]

theorem ranked_pairwise : (ranked name candidates limit).Pairwise (Precedes name candidates) := by
  have hplaces : (near name candidates limit).Pairwise fun a b => candidates.idxOf a < candidates.idxOf b :=
    (pairwise_distinct candidates).filter _
  have htrans : ∀ a b c, decide (distance name a ≤ distance name b) = true →
      decide (distance name b ≤ distance name c) = true → decide (distance name a ≤ distance name c) = true := by
    simp only [decide_eq_true_eq]
    exact fun _ _ _ => Nat.le_trans
  have htotal : ∀ a b, (decide (distance name a ≤ distance name b) ||
      decide (distance name b ≤ distance name a)) = true := by
    simp only [Bool.or_eq_true, decide_eq_true_eq]
    exact fun _ _ => Nat.le_total _ _
  refine (pairwise_mergeSort_of_pairwise htrans htotal hplaces).imp fun {a b} hab => ?_
  simp only [decide_eq_true_eq] at hab
  exact (Nat.lt_or_eq_of_le hab.1).imp_right fun heq => ⟨heq, hab.2 (Nat.le_of_eq heq.symm)⟩

theorem nodup_ranked : (ranked name candidates limit).Nodup :=
  (ranked_pairwise name candidates limit).imp Precedes.ne

theorem length_ranked : (ranked name candidates limit).length =
    (candidates.toFinset.filter (Qualifies name limit)).card := by
  rw [← List.toFinset_card_of_nodup (nodup_ranked name candidates limit)]
  refine congrArg Finset.card (Finset.ext fun c => ?_)
  rw [List.mem_toFinset, mem_ranked, Finset.mem_filter, List.mem_toFinset]

end

/-- **Suggestions are the nearest names**: the first of all candidates that qualify. -/
theorem isNearest_nearest (name : String) (candidates : List String) (limit : Int) (count : Nat) :
    IsNearest name candidates limit count (nearest name candidates limit count) := by
  have hranked := ranked_pairwise name candidates limit
  rw [nearest_eq]
  exact
    { nodup := (nodup_ranked name candidates limit).sublist (List.take_sublist _ _)
      qualifies := fun c hc => (mem_ranked name candidates limit).mp (List.mem_of_mem_take hc)
      ordered := hranked.sublist (List.take_sublist _ _)
      length_eq := by rw [List.length_take, length_ranked]
      left_out := by
        intro c hc hqualifies hout r hr
        have hmem := (mem_ranked name candidates limit).mpr ⟨hc, hqualifies⟩
        rw [← List.take_append_drop count (ranked name candidates limit)] at hmem hranked
        exact (List.pairwise_append.mp hranked).2.2 r hr c ((List.mem_append.mp hmem).resolve_left hout) }

end Ballpark.Suggestion
