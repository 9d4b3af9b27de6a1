import Ballpark.Proofs.RealNumber
import Ballpark.Quantity

/-!
# Means of exact numbers

Over the reals the order of addition does not matter: lanes and halves add up to the plain sum
(`Scalar.total_eq_sum`). So a factor common to all particles comes out of their mean
(`Quantity.mean_map_mul`).
-/

namespace Ballpark

namespace Scalar

theorem runningTotal_eq (start : ℝ) (xs : List ℝ) : runningTotal start xs = start + xs.sum := by
  induction xs generalizing start with
  | nil => simp [runningTotal]
  | cons x rest ih =>
    have hstep : runningTotal start (x :: rest) = runningTotal (start + x) rest := rfl
    rw [hstep, ih, List.sum_cons, add_assoc]

theorem sum_zipWith_add {xs ys : List ℝ} (h : xs.length = ys.length) :
    (xs.zipWith (· + ·) ys).sum = xs.sum + ys.sum := by
  induction xs generalizing ys with
  | nil =>
    rw [List.eq_nil_of_length_eq_zero h.symm]
    simp
  | cons x rest ih =>
    rcases ys with _ | ⟨y, ys⟩
    · cases h
    · rw [List.zipWith_cons_cons, List.sum_cons, List.sum_cons, List.sum_cons,
        ih (Nat.succ.inj h)]
      ring

/-- Eight lanes stay eight, and lanes and leftovers together keep their sum. -/
theorem addLanes_spec (lanes xs : List ℝ) (h : lanes.length = 8) :
    (addLanes lanes xs).1.length = 8 ∧
      (addLanes lanes xs).1.sum + (addLanes lanes xs).2.sum = lanes.sum + xs.sum := by
  induction lanes, xs using addLanes.induct with
  | case1 lanes xs hshort =>
    rw [addLanes, if_pos hshort]
    exact ⟨h, rfl⟩
  | case2 lanes xs hlong ih =>
    have htake : (xs.take 8).length = 8 := by
      rw [List.length_take]
      omega
    obtain ⟨hlength, hsum⟩ := ih (by rw [List.length_zipWith, h, htake, Nat.min_self])
    rw [addLanes, if_neg hlong]
    refine ⟨hlength, hsum.trans ?_⟩
    rw [sum_zipWith_add (h.trans htake.symm), add_assoc, ← List.sum_append, List.take_append_drop]

theorem joinLanes_eq_sum (lanes : List ℝ) : joinLanes lanes = lanes.sum := by
  rw [joinLanes.eq_def]
  split
  · simp only [List.sum_cons, List.sum_nil]
    ring
  · rw [runningTotal_eq, ofRat_real, Rat.cast_zero, zero_add]

theorem blockTotal_eq_sum (xs : List ℝ) : blockTotal xs = xs.sum := by
  rw [blockTotal]
  split
  · rw [runningTotal_eq, ofRat_real, Rat.cast_zero, zero_add]
  · rename_i hlong
    have htake : (xs.take 8).length = 8 := by
      rw [List.length_take]
      omega
    obtain ⟨-, hsum⟩ := addLanes_spec (xs.take 8) (xs.drop 8) htake
    show runningTotal (joinLanes (addLanes (xs.take 8) (xs.drop 8)).1)
      (addLanes (xs.take 8) (xs.drop 8)).2 = xs.sum
    rw [runningTotal_eq, joinLanes_eq_sum, hsum, ← List.sum_append, List.take_append_drop]

/-- **The total is the sum.** -/
theorem total_eq_sum (xs : List ℝ) : total xs = xs.sum := by
  induction xs using total.induct with
  | case1 xs hshort => rw [total, if_pos hshort, blockTotal_eq_sum]
  | case2 xs hlong half ihfront ihback =>
    rw [total, if_neg hlong]
    show total (xs.take half) + total (xs.drop half) = xs.sum
    rw [ihfront, ihback, ← List.sum_append, List.take_append_drop]

theorem getElem?_cumulative_go (sum : ℝ) {xs : List ℝ} {k : Nat} (hk : k < xs.length) :
    (cumulative.go sum xs)[k]? = some (sum + (xs.take (k + 1)).sum) := by
  induction xs generalizing sum k with
  | nil => simp at hk
  | cons x rest ih =>
    rcases k with _ | k
    · simp [cumulative.go]
    · rw [cumulative.go, List.getElem?_cons_succ, ih _ (by simpa using hk),
        List.take_succ_cons, List.sum_cons, add_assoc]

/-- The cumulative sums are those of the first terms. -/
theorem getElem?_cumulative {xs : List ℝ} {k : Nat} (hk : k < xs.length) :
    (cumulative xs)[k]? = some (xs.take (k + 1)).sum := by
  rcases xs with _ | ⟨x, rest⟩
  · simp at hk
  rcases k with _ | k
  · simp [cumulative]
  · have hk' : k < rest.length := by simpa using hk
    simp [cumulative, getElem?_cumulative_go x hk']

theorem length_cumulative_go (sum : ℝ) (xs : List ℝ) : (cumulative.go sum xs).length = xs.length := by
  induction xs generalizing sum with
  | nil => rfl
  | cons x rest ih => rw [cumulative.go, List.length_cons, List.length_cons, ih]

theorem length_cumulative (xs : List ℝ) : (cumulative xs).length = xs.length := by
  rcases xs with _ | ⟨x, rest⟩
  · rfl
  · rw [cumulative, List.length_cons, List.length_cons, length_cumulative_go]

end Scalar

namespace Quantity

/-- A common factor comes out of the mean. -/
theorem mean_map_mul (v : Value ℝ) (u w : CompoundUnit ℝ) (k : ℝ) :
    mean ⟨v.map (· * k), u⟩ = mean ⟨v, w⟩ * k := by
  rcases v with x | s
  · rfl
  · have hlist : (s.map (· * k)).toList = s.toList.map (· * k) := rfl
    show (s.map (· * k)).mean = s.mean * k
    rw [Sample.mean, Sample.mean, Scalar.mean, Scalar.mean, hlist, List.length_map,
      Scalar.total_eq_sum, Scalar.total_eq_sum, List.sum_map_mul_right, List.map_id']
    ring

end Quantity

end Ballpark
