import Ballpark.Random.Gamma

/-!
# Filling places

The gamma sampler keeps its places in a buffer and the indices that are still pending beside it. The two
belong together (`Filling.Sound`): exactly the indices of the empty places are pending, in increasing order.
It is so at the start, and a pass keeps it so (`Filling.Sound.fill`): of the pending indices those whose
candidates are accepted are written, and the others stay pending (`Filling.accepted_rejected_perm`). When
nothing is pending any more every place has its number (`Filling.Sound.map_some_numbers`).
-/

namespace Ballpark.Sampler.Filling

variable {R : Type} {pending : List Nat} {candidates : List (Option R)} {i : Nat}

/-- Exactly the indices of the empty places are pending, in increasing order. -/
structure Sound (n : Nat) (f : Filling R) : Prop where
  size : f.places.size = n
  increasing : f.pending.Pairwise (· < ·)
  pending_iff : ∀ i, i ∈ f.pending ↔ f.places[i]? = some none

theorem sound_start (n : Nat) : (start n : Filling R).Sound n where
  size := Array.size_replicate
  increasing := List.pairwise_lt_range
  pending_iff i := by
    rw [start, Array.getElem?_replicate, List.mem_range]
    split <;> simp_all

/-! ## Accepted and rejected candidates -/

theorem mem_accepted {y : R} :
    (i, y) ∈ accepted pending candidates ↔ (i, some y) ∈ pending.zip candidates := by
  simp only [accepted, List.mem_filterMap, Option.map_eq_some_iff, Prod.exists, Prod.mk.injEq]
  constructor
  · rintro ⟨_, _, h, _, rfl, rfl, rfl⟩
    exact h
  · exact fun h => ⟨_, _, h, y, rfl, rfl, rfl⟩

theorem rejected_sublist (h : candidates.length = pending.length) :
    (rejected pending candidates).Sublist pending := by
  have hzip : (pending.zip candidates).map Prod.fst = pending := List.map_fst_zip (Nat.le_of_eq h.symm)
  have hfilter := (List.filter_sublist (p := fun c => c.2.isNone) (l := pending.zip candidates)).map Prod.fst
  rwa [hzip] at hfilter

theorem accepted_cons (j : Nat) (c : Option R) :
    accepted (j :: pending) (c :: candidates) =
      (c.map (j, ·)).toList ++ accepted pending candidates := by
  cases c <;> rfl

theorem rejected_cons (j : Nat) (c : Option R) :
    rejected (j :: pending) (c :: candidates) =
      if c.isNone then j :: rejected pending candidates else rejected pending candidates := by
  cases c <;> rfl

/-- The pending indices are the accepted ones and the rejected ones. -/
theorem accepted_rejected_perm (h : candidates.length = pending.length) :
    ((accepted pending candidates).map Prod.fst ++ rejected pending candidates).Perm pending := by
  induction pending generalizing candidates with
  | nil => simp [accepted, rejected]
  | cons j pending ih =>
    rcases candidates with _ | ⟨c, candidates⟩
    · cases h
    · have hrest := ih (Nat.succ.inj h)
      rw [accepted_cons, rejected_cons]
      cases c with
      | none => exact List.perm_middle.trans (hrest.cons j)
      | some y => exact hrest.cons j

/-! ## Writing -/

theorem size_write (places : Array (Option R)) (numbers : List (Nat × R)) :
    (write places numbers).size = places.size := by
  induction numbers generalizing places with
  | nil => rfl
  | cons first rest ih =>
    rw [write, List.foldl_cons]
    exact (ih _).trans Array.size_setIfInBounds

/-- What is not written stays as it is. -/
theorem getElem?_write_of_not_mem {places : Array (Option R)} {numbers : List (Nat × R)}
    (h : i ∉ numbers.map Prod.fst) : (write places numbers)[i]? = places[i]? := by
  induction numbers generalizing places with
  | nil => rfl
  | cons first rest ih =>
    obtain ⟨hne, hrest⟩ : i ≠ first.1 ∧ i ∉ rest.map Prod.fst := by simpa using h
    rw [write, List.foldl_cons]
    exact (ih hrest).trans (Array.getElem?_setIfInBounds_ne (Ne.symm hne))

/-- Where each index is written once, the number that is written stays. -/
theorem getElem?_write_of_mem {places : Array (Option R)} {numbers : List (Nat × R)}
    (hnodup : (numbers.map Prod.fst).Nodup) {y : R} (h : (i, y) ∈ numbers) (hi : i < places.size) :
    (write places numbers)[i]? = some (some y) := by
  induction numbers generalizing places with
  | nil => cases h
  | cons first rest ih =>
    obtain ⟨hfirst, hrest⟩ := List.nodup_cons.mp hnodup
    rw [write, List.foldl_cons]
    rcases List.mem_cons.mp h with rfl | hmem
    · exact (getElem?_write_of_not_mem hfirst).trans (Array.getElem?_setIfInBounds_self_of_lt hi)
    · exact ih hrest hmem (by rwa [Array.size_setIfInBounds])

theorem mem_write {places : Array (Option R)} {numbers : List (Nat × R)} {y : R}
    (h : some y ∈ write places numbers) : some y ∈ places ∨ y ∈ numbers.map Prod.snd := by
  induction numbers generalizing places with
  | nil => exact .inl h
  | cons first rest ih =>
    rw [write, List.foldl_cons] at h
    rcases ih h with hmem | hmem
    · rcases Array.mem_or_eq_of_mem_setIfInBounds hmem with hplace | hfirst
      · exact .inl hplace
      · exact .inr (Option.some.inj hfirst ▸ List.mem_cons_self)
    · exact .inr (List.mem_cons_of_mem _ hmem)

/-! ## Passes -/

theorem mem_numbers {f : Filling R} {y : R} : y ∈ f.numbers ↔ some y ∈ f.places := by
  simp [numbers]

variable {n : Nat} {f : Filling R}

/-- A number that stands in a place was there before the pass or is a candidate. -/
theorem mem_numbers_fill {y : R} (h : y ∈ (f.fill candidates).numbers) :
    y ∈ f.numbers ∨ some y ∈ candidates := by
  rcases mem_write (mem_numbers.mp h) with hplace | hwritten
  · exact .inl (mem_numbers.mpr hplace)
  · obtain ⟨⟨i, z⟩, hz, rfl⟩ := List.mem_map.mp hwritten
    exact .inr (List.of_mem_zip (mem_accepted.mp hz)).2

/-- All other places are left alone. -/
theorem getElem?_fill_of_not_accepted (hi : ∀ y, (i, some y) ∉ f.pending.zip candidates) :
    (f.fill candidates).places[i]? = f.places[i]? := by
  refine getElem?_write_of_not_mem fun hmem => ?_
  obtain ⟨⟨j, y⟩, hy, rfl⟩ := List.mem_map.mp hmem
  exact hi y (mem_accepted.mp hy)

section

variable (h : f.Sound n) (hlength : candidates.length = f.pending.length)
include h hlength

/-- No index is both accepted and rejected, and none is accepted twice. -/
theorem Sound.split_nodup :
    ((accepted f.pending candidates).map Prod.fst ++ rejected f.pending candidates).Nodup :=
  (accepted_rejected_perm hlength).nodup_iff.mpr (h.increasing.imp Nat.ne_of_lt)

/-- An accepted candidate stands in its place after the pass. -/
theorem Sound.getElem?_fill_of_accepted {y : R} (hi : (i, some y) ∈ f.pending.zip candidates) :
    (f.fill candidates).places[i]? = some (some y) := by
  have hpending : f.places[i]? = some none := (h.pending_iff i).mp (List.of_mem_zip hi).1
  exact getElem?_write_of_mem (List.nodup_append.mp (h.split_nodup hlength)).1 (mem_accepted.mpr hi)
    (Array.getElem?_eq_some_iff.mp hpending).1

/-- **A pass keeps the two together**: the places that are written are no longer pending. -/
theorem Sound.fill : (f.fill candidates).Sound n where
  size := (size_write _ _).trans h.size
  increasing := h.increasing.sublist (rejected_sublist hlength)
  pending_iff i := by
    have hsplit := (accepted_rejected_perm hlength).mem_iff (a := i)
    rw [List.mem_append] at hsplit
    by_cases hi : ∃ y, (i, some y) ∈ f.pending.zip candidates
    · obtain ⟨y, hy⟩ := hi
      have haccepted : i ∈ (accepted f.pending candidates).map Prod.fst :=
        List.mem_map_of_mem (mem_accepted.mpr hy)
      have hdisjoint := (List.nodup_append.mp (h.split_nodup hlength)).2.2 i haccepted i
      rw [h.getElem?_fill_of_accepted hlength hy]
      exact iff_of_false (fun hrejected => hdisjoint hrejected rfl) (by simp)
    · have hnot : i ∉ (accepted f.pending candidates).map Prod.fst := by
        intro hmem
        obtain ⟨⟨j, y⟩, hy, rfl⟩ := List.mem_map.mp hmem
        exact hi ⟨y, mem_accepted.mp hy⟩
      rw [getElem?_fill_of_not_accepted (not_exists.mp hi), ← h.pending_iff, ← hsplit, or_iff_right hnot]
      rfl

end

/-- Numbers that are all there. -/
theorem map_some_filterMap_id {l : List (Option R)} (h : none ∉ l) : (l.filterMap id).map some = l := by
  induction l with
  | nil => rfl
  | cons place rest ih =>
    obtain ⟨hplace, hrest⟩ : none ≠ place ∧ none ∉ rest := by simpa using h
    obtain ⟨y, rfl⟩ := Option.ne_none_iff_exists'.mp hplace.symm
    exact congrArg (some y :: ·) (ih hrest)

/-- Where nothing is pending every place has its number. -/
theorem Sound.map_some_numbers (h : f.Sound n) (hpending : f.pending = []) :
    f.numbers.map some = f.places.toList := by
  refine map_some_filterMap_id fun hnone => ?_
  obtain ⟨i, hi⟩ := List.mem_iff_getElem?.mp hnone
  have hmem : i ∈ f.pending := (h.pending_iff i).mpr (by rwa [Array.getElem?_toList] at hi)
  rw [hpending] at hmem
  cases hmem

theorem Sound.length_numbers (h : f.Sound n) (hpending : f.pending = []) : f.numbers.length = n := by
  rw [← h.size, ← Array.length_toList, ← h.map_some_numbers hpending, List.length_map]

end Ballpark.Sampler.Filling
