import Ballpark.Dimension
import Mathlib.Data.String.Basic
import Mathlib.Algebra.BigOperators.Group.List.Basic
import Mathlib.Algebra.Order.Field.Rat
import Mathlib.Tactic.LinearCombination
import Mathlib.Tactic.Ring

/-!
# Dimensions as vectors

A dimension is read as a vector of powers, one for each base quantity and one for each label. Products
add these vectors, quotients subtract them and powers scale them. The order in which labels are kept
makes the reading faithful: two dimensions in normal form with the same powers are equal
(`Dimension.ext_power`), and normal form survives every operation.
-/

namespace Ballpark

theorem Base.mem_all (b : Base) : b ∈ all := by
  cases b <;> decide

namespace LabelPowers

/-- The power of a label. -/
def power (a : LabelPowers) (label : String) : Rat :=
  (a.map fun e => if e.1 = label then e.2 else 0).sum

/-- Labels in their order, each once and none with the power zero. -/
structure Normal (a : LabelPowers) : Prop where
  ordered : a.Pairwise (·.1 < ·.1)
  nonzero : ∀ e ∈ a, e.2 ≠ 0

@[simp] theorem power_nil (label : String) : power [] label = 0 := rfl

@[simp] theorem power_cons (e : String × Rat) (a : LabelPowers) (label : String) :
    power (e :: a) label = (if e.1 = label then e.2 else 0) + power a label := by
  simp [power]

theorem power_add (l : String) (p : Rat) (a : LabelPowers) (label : String) :
    power (add l p a) label = power a label + if l = label then p else 0 := by
  induction a with
  | nil =>
    by_cases hp : p = 0
    · simp [add, hp]
    · simp [add, hp]
  | cons e rest ih =>
    obtain ⟨m, q⟩ := e
    rw [add]
    by_cases hlt : l < m
    · rw [if_pos hlt]
      by_cases hp : p = 0
      · simp [hp]
      · rw [if_neg hp, power_cons]
        ring
    rw [if_neg hlt]
    by_cases heq : l = m
    · subst heq
      rw [if_pos rfl]
      by_cases hsum : q + p = 0
      · -- the two powers cancel, and the entry is gone
        rw [if_pos hsum, power_cons]
        by_cases hl : l = label
        · simp only [hl, if_true]
          linear_combination -hsum
        · simp [hl]
      · rw [if_neg hsum, power_cons, power_cons]
        by_cases hl : l = label
        · simp only [hl, if_true]
          ring
        · simp [hl]
    · rw [if_neg heq, power_cons, power_cons, ih]
      ring

@[simp] theorem power_merge (a b : LabelPowers) (label : String) :
    power (merge a b) label = power a label + power b label := by
  unfold merge
  induction b generalizing a with
  | nil => simp
  | cons e rest ih =>
    rw [List.foldl_cons, ih, power_add, power_cons]
    ring

@[simp] theorem power_scale (k : Rat) (a : LabelPowers) (label : String) :
    power (scale k a) label = power a label * k := by
  unfold scale
  induction a with
  | nil => simp
  | cons e rest ih =>
    rw [List.map_cons, List.filter_cons]
    by_cases hk : e.2 * k = 0
    · -- an entry that is dropped has contributed nothing
      rw [if_neg (by simp [hk]), ih, power_cons]
      by_cases hl : e.1 = label
      · rw [if_pos hl]
        linear_combination -hk
      · simp [hl]
    · rw [if_pos (by simpa only [decide_eq_true_eq] using hk), power_cons, ih, power_cons, add_mul,
        ite_mul, zero_mul]

@[simp] theorem power_map_neg (a : LabelPowers) (label : String) :
    power (a.map fun e => (e.1, -e.2)) label = -power a label := by
  induction a with
  | nil => simp
  | cons e rest ih =>
    rw [List.map_cons, power_cons, power_cons, ih, neg_add]
    by_cases hl : e.1 = label
    · simp [hl]
    · simp [hl]

/-! ## Normal form -/

theorem Normal.tail {e : String × Rat} {a : LabelPowers} (h : Normal (e :: a)) : Normal a :=
  ⟨(List.pairwise_cons.mp h.ordered).2, fun x hx => h.nonzero x (List.mem_cons_of_mem _ hx)⟩

theorem Normal.head_lt {e : String × Rat} {a : LabelPowers} (h : Normal (e :: a)) :
    ∀ x ∈ a, e.1 < x.1 :=
  (List.pairwise_cons.mp h.ordered).1

theorem Normal.cons {e : String × Rat} {a : LabelPowers} (h : Normal a) (hlt : ∀ x ∈ a, e.1 < x.1)
    (hne : e.2 ≠ 0) : Normal (e :: a) :=
  ⟨List.pairwise_cons.mpr ⟨hlt, h.ordered⟩, List.forall_mem_cons.mpr ⟨hne, h.nonzero⟩⟩

theorem normal_nil : Normal [] :=
  ⟨.nil, by simp⟩

/-- A label that is in no entry, or in front of all of them, has no power. -/
theorem power_eq_zero {a : LabelPowers} {label : String} (h : ∀ x ∈ a, x.1 ≠ label) :
    power a label = 0 := by
  induction a with
  | nil => rfl
  | cons e rest ih =>
    rw [power_cons, if_neg (h e List.mem_cons_self),
      ih fun x hx => h x (List.mem_cons_of_mem _ hx), add_zero]

/-- The labels after an addition are those before it and the one that was added to. -/
theorem mem_add {l : String} {p : Rat} {a : LabelPowers} {e : String × Rat} (h : e ∈ add l p a) :
    e.1 = l ∨ ∃ x ∈ a, x.1 = e.1 := by
  induction a with
  | nil =>
    rw [add] at h
    split at h
    · simp at h
    · left; simp at h; rw [h]
  | cons x rest ih =>
    obtain ⟨m, q⟩ := x
    rw [add] at h
    split at h
    · -- the label comes in front of the others
      split at h
      · exact .inr ⟨e, h, rfl⟩
      · rcases List.mem_cons.mp h with rfl | h
        · exact .inl rfl
        · exact .inr ⟨e, h, rfl⟩
    split at h
    · -- it is the first one, whose entry changes or goes
      rename_i heq
      split at h
      · exact .inr ⟨e, List.mem_cons_of_mem _ h, rfl⟩
      · rcases List.mem_cons.mp h with rfl | h
        · exact .inl heq.symm
        · exact .inr ⟨e, List.mem_cons_of_mem _ h, rfl⟩
    · rcases List.mem_cons.mp h with rfl | h
      · exact .inr ⟨_, List.mem_cons_self, rfl⟩
      · rcases ih h with hl | ⟨y, hy, hye⟩
        · exact .inl hl
        · exact .inr ⟨y, List.mem_cons_of_mem _ hy, hye⟩

theorem Normal.add {a : LabelPowers} (h : Normal a) (l : String) (p : Rat) :
    Normal (add l p a) := by
  induction a with
  | nil =>
    rw [LabelPowers.add]
    split
    · exact normal_nil
    · exact normal_nil.cons (by simp) ‹_›
  | cons e rest ih =>
    obtain ⟨m, q⟩ := e
    rw [LabelPowers.add]
    split
    · rename_i hlt
      split
      · exact h
      · refine h.cons ?_ ‹_›
        rintro x hx
        rcases List.mem_cons.mp hx with rfl | hx
        · exact hlt
        · exact lt_trans hlt (h.head_lt x hx)
    · rename_i hge
      split
      · split
        · exact h.tail
        · rename_i heq _
          subst heq
          exact h.tail.cons h.head_lt ‹_›
      · rename_i hne
        -- the label belongs behind the first entry
        have hgt : m < l := lt_of_le_of_ne (not_lt.mp hge) (Ne.symm hne)
        refine (ih h.tail).cons ?_ (h.nonzero _ List.mem_cons_self)
        intro x hx
        rcases mem_add hx with hl | ⟨y, hy, hyx⟩
        · rw [hl]; exact hgt
        · rw [← hyx]; exact h.head_lt y hy

theorem Normal.merge {a : LabelPowers} (h : Normal a) (b : LabelPowers) : Normal (merge a b) := by
  unfold LabelPowers.merge
  induction b generalizing a with
  | nil => exact h
  | cons e rest ih => exact ih (h.add e.1 e.2)

theorem Normal.scale {a : LabelPowers} (h : Normal a) (k : Rat) : Normal (scale k a) := by
  refine ⟨List.Pairwise.filter _ (List.pairwise_map.mpr h.ordered), fun e he => ?_⟩
  simpa using (List.mem_filter.mp he).2

/-- The power of a label that has an entry is the power of that entry. -/
theorem Normal.power_of_mem {a : LabelPowers} (h : Normal a) {e : String × Rat} (he : e ∈ a) :
    power a e.1 = e.2 := by
  induction a with
  | nil => cases he
  | cons x rest ih =>
    rcases List.mem_cons.mp he with rfl | he
    · rw [power_cons, if_pos rfl, power_eq_zero fun y hy => (h.head_lt y hy).ne', add_zero]
    · rw [power_cons, if_neg (h.head_lt e he).ne, zero_add]
      exact ih h.tail he

theorem power_head_ne_zero {e : String × Rat} {a : LabelPowers} (h : Normal (e :: a)) :
    power (e :: a) e.1 ≠ 0 := by
  rw [power_cons, if_pos rfl, power_eq_zero fun x hx => (h.head_lt x hx).ne', add_zero]
  exact h.nonzero e List.mem_cons_self

/-- Below the first label all powers are zero. -/
theorem power_eq_zero_of_lt {e : String × Rat} {a : LabelPowers} {label : String}
    (h : Normal (e :: a)) (hlt : label < e.1) : power (e :: a) label = 0 := by
  refine power_eq_zero fun x hx => ?_
  rcases List.mem_cons.mp hx with rfl | hx
  · exact hlt.ne'
  · exact (lt_trans hlt (h.head_lt x hx)).ne'

/-- Powers in normal form are known by the power of each label. -/
theorem Normal.ext {a b : LabelPowers} (ha : Normal a) (hb : Normal b)
    (h : ∀ label, power a label = power b label) : a = b := by
  induction a generalizing b with
  | nil =>
    rcases b with _ | ⟨e, b⟩
    · rfl
    · exact absurd (h e.1).symm (power_head_ne_zero hb)
  | cons e a ih =>
    rcases b with _ | ⟨f, b⟩
    · exact absurd (h e.1) (power_head_ne_zero ha)
    · -- the smaller of the two first labels would have no power on the other side
      have hlabel : e.1 = f.1 := by
        rcases lt_trichotomy e.1 f.1 with hlt | heq | hgt
        · exact absurd ((h e.1).trans (power_eq_zero_of_lt hb hlt)) (power_head_ne_zero ha)
        · exact heq
        · exact absurd ((h f.1).symm.trans (power_eq_zero_of_lt ha hgt)) (power_head_ne_zero hb)
      have hpower : e.2 = f.2 := by
        have := h e.1
        rw [power_cons, power_cons, if_pos rfl, if_pos hlabel.symm,
          power_eq_zero fun x hx => (ha.head_lt x hx).ne',
          power_eq_zero fun x hx => hlabel ▸ (hb.head_lt x hx).ne'] at this
        simpa using this
      have hef : e = f := Prod.ext hlabel hpower
      subst hef
      rw [ih ha.tail hb.tail fun label => ?_]
      have := h label
      rw [power_cons, power_cons] at this
      exact add_left_cancel this

end LabelPowers

namespace Dimension

/-- What a dimension has a power of. -/
inductive Axis where
  | base (place : Fin 9)
  | label (name : String)

/-- The power of an axis. -/
def power (d : Dimension) : Axis → Rat
  | .base i => d.exponents[i]
  | .label l => d.labels.power l

/-- Labels in normal form. -/
def Normal (d : Dimension) : Prop :=
  d.labels.Normal

@[simp] theorem power_one (x : Axis) : one.power x = 0 := by
  cases x with
  | base i => simp [power, one]
  | label l => rfl

@[simp] theorem power_multiply (a b : Dimension) (x : Axis) :
    (a.multiply b).power x = a.power x + b.power x := by
  cases x with
  | base i => simp [power, multiply]
  | label l => exact LabelPowers.power_merge a.labels b.labels l

@[simp] theorem power_divide (a b : Dimension) (x : Axis) :
    (a.divide b).power x = a.power x - b.power x := by
  cases x with
  | base i => simp [power, divide]
  | label l =>
    simp only [power, divide]
    rw [LabelPowers.power_merge, LabelPowers.power_map_neg, ← sub_eq_add_neg]

@[simp] theorem power_pow (a : Dimension) (k : Rat) (x : Axis) :
    (a.pow k).power x = a.power x * k := by
  cases x with
  | base i => simp [power, pow]
  | label l => exact LabelPowers.power_scale k a.labels l

theorem normal_one : one.Normal :=
  LabelPowers.normal_nil

theorem Normal.multiply {a : Dimension} (h : a.Normal) (b : Dimension) : (a.multiply b).Normal :=
  LabelPowers.Normal.merge h b.labels

theorem Normal.divide {a : Dimension} (h : a.Normal) (b : Dimension) : (a.divide b).Normal :=
  LabelPowers.Normal.merge h _

theorem Normal.pow {a : Dimension} (h : a.Normal) (k : Rat) : (a.pow k).Normal :=
  LabelPowers.Normal.scale h k

theorem normal_label (name : String) : (label name).Normal :=
  LabelPowers.normal_nil.cons (by simp) one_ne_zero

theorem normal_ofList (powers : List (Base × Rat)) : (ofList powers).Normal :=
  LabelPowers.normal_nil

/-- **Dimensions are their powers.** Two dimensions in normal form with the same powers are equal. -/
theorem ext_power {a b : Dimension} (ha : a.Normal) (hb : b.Normal)
    (h : ∀ x, a.power x = b.power x) : a = b := by
  obtain ⟨exponents, labels⟩ := a
  obtain ⟨exponents', labels'⟩ := b
  have hexponents : exponents = exponents' := by
    refine Vector.ext fun i hi => ?_
    exact h (.base ⟨i, hi⟩)
  have hlabels : labels = labels' := LabelPowers.Normal.ext ha hb fun l => h (.label l)
  rw [hexponents, hlabels]

theorem isOne_iff {d : Dimension} : d.isOne = true ↔ d = one := by
  constructor
  · intro h
    simp only [isOne, Bool.and_eq_true] at h
    obtain ⟨hexponents, hlabels⟩ := h
    obtain ⟨exponents, labels⟩ := d
    have hnil : labels = [] := List.isEmpty_iff.mp hlabels
    have hzero : exponents = Vector.replicate 9 0 := by
      refine Vector.ext fun i hi => ?_
      have := Vector.all_eq_true.mp hexponents i hi
      simpa using this
    rw [hnil, hzero]
    rfl
  · rintro rfl
    simp [isOne, one]

/-- A dimension in normal form is that of plain numbers if it has no power. -/
theorem isOne_iff_power {d : Dimension} (h : d.Normal) : d.isOne = true ↔ ∀ x, d.power x = 0 := by
  rw [isOne_iff]
  constructor
  · rintro rfl x
    exact power_one x
  · intro hzero
    exact ext_power h normal_one fun x => by rw [hzero x, power_one]

end Dimension

end Ballpark
