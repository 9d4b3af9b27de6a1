import Mathlib.Data.List.Nodup
import Mathlib.Data.List.Perm.Basic

/-!
# Stable sorting

Reports and suggestions are sorted lists in which items of one rank keep the order they had. A list of
items of one rank is in order already, so it is found again in the sorted list
(`filter_mergeSort_of_alike`), and what holds of each item and a later one holds in the sorted list of
items of one rank (`pairwise_mergeSort_of_pairwise`).
-/

namespace Ballpark

section

variable {α : Type} {le : α → α → Bool} (htrans : ∀ a b c, le a b = true → le b c = true → le a c = true)
  (htotal : ∀ a b, (le a b || le b a) = true) {items : List α}
include htrans htotal

/-- Items of one rank keep their order. -/
theorem filter_mergeSort_of_alike {p : α → Bool} (halike : ∀ a b, p a = true → p b = true → le a b = true) :
    (items.mergeSort le).filter p = items.filter p := by
  have hsorted : (items.filter p).Pairwise fun a b => le a b = true :=
    List.pairwise_of_forall_mem_list fun a ha b hb =>
      halike a b (List.mem_filter.mp ha).2 (List.mem_filter.mp hb).2
  have hsub := (List.sublist_mergeSort htrans htotal hsorted List.filter_sublist).filter p
  have hlength := ((List.mergeSort_perm items le).filter p).length_eq
  rw [List.filter_filter, funext fun c => Bool.and_self _] at hsub
  exact (hsub.eq_of_length hlength.symm).symm

/-- **Sorting is stable**: an item comes behind those of a smaller rank, and to those of its own it stands
as it was given. -/
theorem pairwise_mergeSort_of_pairwise {P : α → α → Prop} (h : items.Pairwise P) :
    (items.mergeSort le).Pairwise fun a b => le a b = true ∧ (le b a = true → P a b) := by
  rw [List.pairwise_iff_forall_sublist]
  intro a b hsub
  have hab := List.pairwise_iff_forall_sublist.mp (List.pairwise_mergeSort htrans htotal items) hsub
  refine ⟨hab, fun hba => ?_⟩
  have haa : le a a = true := by simpa using htotal a a
  have hfilter := hsub.filter fun c => le a c && le c a
  rw [filter_mergeSort_of_alike htrans htotal, List.filter_eq_self.mpr (by simp [haa, hab, hba])] at hfilter
  · exact List.pairwise_iff_forall_sublist.mp h (hfilter.trans List.filter_sublist)
  · intro c d hc hd
    rw [Bool.and_eq_true] at hc hd
    exact htrans c a d hc.2 hd.1

end

/-- The names of a list without repetition stand in the order of their places. -/
theorem pairwise_idxOf {names : List String} (h : names.Nodup) :
    names.Pairwise fun a b => names.idxOf a < names.idxOf b := by
  rw [List.pairwise_iff_getElem]
  intro i j hi hj hij
  rwa [h.idxOf_getElem, h.idxOf_getElem]

end Ballpark
