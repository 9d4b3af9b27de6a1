import Ballpark.Text.EditDistance
import Mathlib.Data.List.Infix
import Mathlib.Data.List.Induction
import Mathlib.Order.Bounds.Basic

/-!
# Edit distance

The distance of two texts is the least number of edits that turn one into the other
(`Text.isLeast_editDistance`). Between the rows and the edits stands a recursion on both texts
(`Text.leastEdits`): a row holds its values for the beginnings of a text, read from their ends
(`Text.distanceRow_eq`), and one edit changes it by one at most, so no sequence of edits is shorter
(`Text.Edits.leastEdits_le`).
-/

namespace Ballpark.Text

/-! ## Edits -/

/-- One edit: a character is inserted, deleted or replaced, anywhere in a text. -/
inductive Edit : List Char → List Char → Prop
  | insert (front back : List Char) (c : Char) : Edit (front ++ back) (front ++ c :: back)
  | delete (front back : List Char) (c : Char) : Edit (front ++ c :: back) (front ++ back)
  | replace (front back : List Char) (c d : Char) : Edit (front ++ c :: back) (front ++ d :: back)

/-- So many edits, one after another. -/
inductive Edits : Nat → List Char → List Char → Prop
  | none (a : List Char) : Edits 0 a a
  | more {n : Nat} {a b c : List Char} (h : Edits n a b) (hedit : Edit b c) : Edits (n + 1) a c

theorem Edit.symm {a b : List Char} (h : Edit a b) : Edit b a := by
  cases h with
  | insert front back c => exact .delete front back c
  | delete front back c => exact .insert front back c
  | replace front back c d => exact .replace front back d c

theorem Edit.cons {a b : List Char} (h : Edit a b) (x : Char) : Edit (x :: a) (x :: b) := by
  cases h with
  | insert front back c => exact .insert (x :: front) back c
  | delete front back c => exact .delete (x :: front) back c
  | replace front back c d => exact .replace (x :: front) back c d

theorem Edit.reverse {a b : List Char} (h : Edit a b) : Edit a.reverse b.reverse := by
  cases h with
  | insert front back c => simpa using Edit.insert back.reverse front.reverse c
  | delete front back c => simpa using Edit.delete back.reverse front.reverse c
  | replace front back c d => simpa using Edit.replace back.reverse front.reverse c d

namespace Edits

variable {m n : Nat} {a b c : List Char}

theorem single (h : Edit a b) : Edits 1 a b :=
  .more (.none a) h

theorem trans (h : Edits m a b) (h' : Edits n b c) : Edits (m + n) a c := by
  induction h' with
  | none => exact h
  | more _ hedit ih => exact .more (ih h) hedit

theorem symm (h : Edits n a b) : Edits n b a := by
  induction h with
  | none => exact .none _
  | more _ hedit ih => exact Nat.add_comm 1 _ ▸ (single hedit.symm).trans ih

theorem cons (h : Edits n a b) (x : Char) : Edits n (x :: a) (x :: b) := by
  induction h with
  | none => exact .none _
  | more _ hedit ih => exact .more ih (hedit.cons x)

theorem reverse (h : Edits n a b) : Edits n a.reverse b.reverse := by
  induction h with
  | none => exact .none _
  | more _ hedit ih => exact .more ih hedit.reverse

theorem reverse_iff : Edits n a.reverse b.reverse ↔ Edits n a b :=
  ⟨fun h => by simpa using h.reverse, reverse⟩

theorem eq_of_zero (h : Edits 0 a b) : a = b := by
  cases h
  rfl

end Edits

/-! ## The recursion -/

/-- The least number of edits, found from the first characters on: the first character of either text is
an edit of its own, or the two stand for each other. -/
def leastEdits : List Char → List Char → Nat
  | [], b => b.length
  | a, [] => a.length
  | c :: a, d :: b =>
    min (min (leastEdits a (d :: b) + 1) (leastEdits (c :: a) b + 1))
      (leastEdits a b + if c = d then 0 else 1)
termination_by a b => a.length + b.length

@[simp] theorem leastEdits_nil_left (b : List Char) : leastEdits [] b = b.length := by
  rw [leastEdits]

@[simp] theorem leastEdits_nil_right (a : List Char) : leastEdits a [] = a.length := by
  cases a with
  | nil => rw [leastEdits]
  | cons c a => rw [leastEdits]; exact List.cons_ne_nil c a

theorem leastEdits_cons_cons (c d : Char) (a b : List Char) : leastEdits (c :: a) (d :: b) =
    min (min (leastEdits a (d :: b) + 1) (leastEdits (c :: a) b + 1))
      (leastEdits a b + if c = d then 0 else 1) := by
  rw [leastEdits]

theorem leastEdits_comm (a b : List Char) : leastEdits a b = leastEdits b a := by
  fun_induction leastEdits a b with
  | case1 b => rw [leastEdits_nil_right]
  | case2 a => rw [leastEdits_nil_left]
  | case3 c a d b ihabove ihbeside ihcorner =>
    have hsame : (if c = d then 0 else 1) = if d = c then 0 else 1 := if_congr eq_comm rfl rfl
    rw [leastEdits_cons_cons, ihabove, ihbeside, ihcorner, hsame, Nat.min_comm (_ + 1)]

theorem leastEdits_le_max (a b : List Char) : leastEdits a b ≤ max a.length b.length := by
  fun_induction leastEdits a b with
  | case1 b => exact Nat.le_max_right _ _
  | case2 a => exact Nat.le_max_left _ _
  | case3 c a d b _ _ ihcorner =>
    simp only [List.length_cons]
    split <;> omega

/-- There are so many edits that turn one text into the other. -/
theorem edits_leastEdits (a b : List Char) : Edits (leastEdits a b) a b := by
  have hfromNil : ∀ b : List Char, Edits b.length [] b := by
    intro b
    induction b with
    | nil => exact .none []
    | cons d b ih => exact ih.more (.insert [] b d)
  fun_induction leastEdits a b with
  | case1 b => exact hfromNil b
  | case2 a => exact (hfromNil a).symm
  | case3 c a d b ihabove ihbeside ihcorner =>
    have hdelete : Edits (leastEdits a (d :: b) + 1) (c :: a) (d :: b) := by
      rw [Nat.add_comm]
      exact (Edits.single (.delete [] a c)).trans ihabove
    have hinsert : Edits (leastEdits (c :: a) b + 1) (c :: a) (d :: b) :=
      ihbeside.more (.insert [] b d)
    have hpair : Edits (leastEdits a b + if c = d then 0 else 1) (c :: a) (d :: b) := by
      split
      · rename_i hsame
        exact hsame ▸ ihcorner.cons c
      · exact (ihcorner.cons c).more (.replace [] b c d)
    exact min_rec' (Edits · (c :: a) (d :: b)) (min_rec' (Edits · _ _) hdelete hinsert) hpair

/-! ## One edit changes it by one -/

theorem leastEdits_delete_le (c : Char) (a b : List Char) :
    leastEdits (c :: a) b ≤ leastEdits a b + 1 := by
  cases b with
  | nil => simp
  | cons d b =>
    rw [leastEdits_cons_cons]
    exact (Nat.min_le_left _ _).trans (Nat.min_le_left _ _)

theorem leastEdits_le_pair (c d : Char) (a b : List Char) :
    leastEdits (c :: a) (d :: b) ≤ leastEdits a b + if c = d then 0 else 1 := by
  rw [leastEdits_cons_cons]
  exact Nat.min_le_right _ _

theorem leastEdits_insert_le (a b : List Char) (d : Char) :
    leastEdits a (d :: b) ≤ leastEdits a b + 1 := by
  rw [leastEdits_comm, leastEdits_comm a]
  exact leastEdits_delete_le d b a

theorem leastEdits_le_cons (c : Char) (a b : List Char) :
    leastEdits a b ≤ leastEdits (c :: a) b + 1 := by
  induction b with
  | nil => simp; omega
  | cons d b ih =>
    have hinsert := leastEdits_insert_le a b d
    rw [leastEdits_cons_cons]
    split <;> omega

theorem leastEdits_replace_le (c d : Char) (a b : List Char) :
    leastEdits (c :: a) b ≤ leastEdits (d :: a) b + 1 := by
  induction b with
  | nil => simp
  | cons e b ih =>
    have hdelete := leastEdits_delete_le c a (e :: b)
    have hinsert := leastEdits_insert_le (c :: a) b e
    have hpair := leastEdits_le_pair c e a b
    rw [leastEdits_cons_cons d]
    split at hpair <;> split <;> omega

/-- What holds of two texts for all others holds behind one more character. -/
theorem leastEdits_cons_le {a a' : List Char} (h : ∀ b, leastEdits a b ≤ leastEdits a' b + 1) (c : Char)
    (b : List Char) : leastEdits (c :: a) b ≤ leastEdits (c :: a') b + 1 := by
  induction b with
  | nil => simpa using h []
  | cons d b ih =>
    have habove := h (d :: b)
    have hcorner := h b
    simp only [leastEdits_cons_cons]
    omega

theorem Edit.leastEdits_le {a a' : List Char} (h : Edit a a') (b : List Char) :
    leastEdits a b ≤ leastEdits a' b + 1 := by
  have hfront : ∀ front a a' : List Char, (∀ b, leastEdits a b ≤ leastEdits a' b + 1) →
      ∀ b, leastEdits (front ++ a) b ≤ leastEdits (front ++ a') b + 1 := by
    intro front a a' hback
    induction front with
    | nil => exact hback
    | cons c front ih => exact leastEdits_cons_le ih c
  cases h with
  | insert front back c => exact hfront front _ _ (leastEdits_le_cons c back) b
  | delete front back c => exact hfront front _ _ (leastEdits_delete_le c back) b
  | replace front back c d => exact hfront front _ _ (leastEdits_replace_le c d back) b

theorem leastEdits_self (a : List Char) : leastEdits a a = 0 := by
  induction a with
  | nil => simp
  | cons c a ih =>
    have hpair := leastEdits_le_pair c c a a
    rw [if_pos rfl, ih] at hpair
    exact Nat.le_zero.mp hpair

/-- No sequence of edits is shorter. -/
theorem Edits.leastEdits_le {n : Nat} {a b : List Char} (h : Edits n a b) : leastEdits a b ≤ n := by
  induction h with
  | none a => exact (leastEdits_self a).le
  | more _ hedit ih =>
    rw [leastEdits_comm] at ih ⊢
    exact (hedit.symm.leastEdits_le _).trans (Nat.add_le_add_right ih 1)

/-- **The recursion finds the least number of edits.** -/
theorem isLeast_leastEdits (a b : List Char) : IsLeast {n | Edits n a b} (leastEdits a b) :=
  ⟨edits_leastEdits a b, fun _ h => Edits.leastEdits_le h⟩

/-! ## Rows -/

/-- The entries of a row behind some characters of the other text, both texts read from their ends: the
distances to what they and a beginning of the rest are. -/
def rowBehind (source front rest : List Char) : List Nat :=
  rest.inits.map fun t => leastEdits source (t.reverse ++ front)

theorem rowBehind_nil (source front : List Char) :
    rowBehind source front [] = [leastEdits source front] := by
  simp [rowBehind]

theorem rowBehind_cons (source front : List Char) (x : Char) (rest : List Char) :
    rowBehind source front (x :: rest) =
      leastEdits source front :: rowBehind source (x :: front) rest := by
  simp [rowBehind, Function.comp_def]

/-- A row begins with the distance to what is in front of it. -/
theorem rowBehind_eq (source front rest : List Char) :
    rowBehind source front rest = leastEdits source front :: (rowBehind source front rest).tail := by
  cases rest with
  | nil => rw [rowBehind_nil, List.tail_cons]
  | cons x rest => rw [rowBehind_cons, List.tail_cons]

/-- The rest of a row is what the recursion makes of the row before. -/
theorem rowAfter_rowBehind (c : Char) (source front rest : List Char) :
    rowAfter c rest (rowBehind source front rest) (leastEdits (c :: source) front) =
      (rowBehind (c :: source) front rest).tail := by
  induction rest generalizing front with
  | nil => simp [rowBehind_nil, rowAfter]
  | cons x rest ih =>
    have hnext := ih (x :: front)
    rw [rowBehind_eq source (x :: front)] at hnext
    rw [rowBehind_cons, rowBehind_cons, rowBehind_eq source (x :: front), rowAfter,
      ← leastEdits_cons_cons, hnext, List.tail_cons, ← rowBehind_eq]

theorem nextRow_rowBehind (c : Char) (source target : List Char) :
    nextRow target (rowBehind source [] target) c = rowBehind (c :: source) [] target := by
  have hrest := rowAfter_rowBehind c source [] target
  rw [rowBehind_eq source, leastEdits_nil_right, leastEdits_nil_right, List.length_cons] at hrest
  rw [rowBehind_eq source, nextRow, leastEdits_nil_right, hrest, rowBehind_eq (c :: source),
    leastEdits_nil_right, List.length_cons, List.tail_cons]

/-- **A row holds the distances to the beginnings of the other text**, both read from their ends. -/
theorem distanceRow_eq (source target : List Char) :
    distanceRow source target = rowBehind source.reverse [] target := by
  induction source using List.reverseRecOn with
  | nil =>
    refine List.ext_getElem (by simp [distanceRow, rowBehind]) fun j hj _ => ?_
    have hle : j ≤ target.length := by simpa [distanceRow, Nat.lt_succ_iff] using hj
    simp [distanceRow, rowBehind, List.getElem_inits, hle]
  | append_singleton source c ih =>
    rw [distanceRow, List.foldl_append, ← distanceRow, ih, List.reverse_append]
    exact nextRow_rowBehind c source.reverse target

/-- A row ends with the distance to the whole text. -/
theorem getLastD_rowBehind (source front rest : List Char) (default : Nat) :
    (rowBehind source front rest).getLastD default = leastEdits source (rest.reverse ++ front) := by
  induction rest generalizing front default with
  | nil => rw [rowBehind_nil]; rfl
  | cons x rest ih => rw [rowBehind_cons, List.getLastD_cons, ih, List.reverse_cons, List.append_cons]

theorem getLastD_distanceRow (source target : List Char) :
    (distanceRow source target).getLastD 0 = leastEdits source.reverse target.reverse := by
  rw [distanceRow_eq, getLastD_rowBehind, List.append_nil]

theorem editDistanceList_eq (source target : List Char) :
    editDistanceList source target = leastEdits source.reverse target.reverse := by
  unfold editDistanceList
  split
  · rw [getLastD_distanceRow, leastEdits_comm]
  · rw [getLastD_distanceRow]

theorem isLeast_editDistanceList (a b : List Char) : IsLeast {n | Edits n a b} (editDistanceList a b) := by
  have hreverse : {n | Edits n a b} = {n | Edits n a.reverse b.reverse} :=
    Set.ext fun n => Edits.reverse_iff.symm
  rw [hreverse, editDistanceList_eq]
  exact isLeast_leastEdits _ _

/-- **The edit distance** of two texts is the least number of insertions, deletions and replacements of a
character that turn one into the other. So it is the same both ways, zero for equal texts only, and no more
than the length of the longer text, and no way over a third text is shorter. -/
theorem isLeast_editDistance (a b : String) :
    IsLeast {n | Edits n a.toList b.toList} (editDistance a b) ∧
      editDistance a b = editDistance b a ∧
      (editDistance a b = 0 ↔ a = b) ∧
      editDistance a b ≤ max a.length b.length ∧
      ∀ c, editDistance a c ≤ editDistance a b + editDistance b c := by
  have hleast : ∀ a b : String, IsLeast {n | Edits n a.toList b.toList} (editDistance a b) :=
    fun a b => isLeast_editDistanceList a.toList b.toList
  refine ⟨hleast a b, ?_, ⟨fun hzero => ?_, ?_⟩, ?_, fun c => ?_⟩
  · have hset : {n | Edits n a.toList b.toList} = {n | Edits n b.toList a.toList} :=
      Set.ext fun n => ⟨Edits.symm, Edits.symm⟩
    exact (hleast a b).unique (hset ▸ hleast b a)
  · have hnone : Edits 0 a.toList b.toList := hzero ▸ (hleast a b).1
    exact String.toList_inj.mp hnone.eq_of_zero
  · rintro rfl
    exact Nat.le_zero.mp ((hleast a a).2 (.none a.toList))
  · have hmax := leastEdits_le_max a.toList.reverse b.toList.reverse
    rw [← editDistanceList_eq, List.length_reverse, List.length_reverse] at hmax
    exact hmax
  · exact (hleast a c).2 ((hleast a b).1.trans (hleast b c).1)

end Ballpark.Text
