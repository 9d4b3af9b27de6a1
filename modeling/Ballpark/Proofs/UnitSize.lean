import Ballpark.Proofs.Vocabulary
import Ballpark.Unit.Compound
import Mathlib.Algebra.BigOperators.Group.List.Lemmas
import Mathlib.Analysis.SpecialFunctions.Pow.Real

/-!
# Sizes and dimensions of units

Over the reals the size of a unit whose factors are known by name is the product of the powers of
their sizes (`CompoundUnit.factor_eq`), always above zero. Sizes multiply and powers of dimensions add
up when products are joined, so both can be read off the list of factors in any order.
-/

namespace Ballpark

/-- A unit that some name stands for. -/
def NamedUnit.Known {R : Type} [Scalar R] (u : NamedUnit R) : Prop :=
  ∃ name r, UnitName.resolve? name = some r ∧ u = r.meaning.toUnit

namespace NamedUnit.Known

variable {R : Type} [Scalar R] {u v : NamedUnit R}

theorem exists_named (h : u.Known) : ∃ m : UnitMeaning, m.Named ∧ u = m.toUnit := by
  obtain ⟨name, r, hr, rfl⟩ := h
  exact ⟨r.meaning, UnitName.named_of_resolve? hr, rfl⟩

theorem factor_pos {u : NamedUnit ℝ} (h : u.Known) : 0 < u.factor := by
  obtain ⟨m, hm, rfl⟩ := h.exists_named
  exact hm.factor_pos

theorem normal (h : u.Known) : u.dimension.Normal := by
  obtain ⟨m, -, rfl⟩ := h.exists_named
  rw [m.toUnit_dimension]
  exact m.normal

theorem tickFree (h : u.Known) : u.dimension.TickFree := by
  obtain ⟨m, hm, rfl⟩ := h.exists_named
  rw [m.toUnit_dimension]
  exact hm.tickFree

theorem dimension_eq (hu : u.Known) (hv : v.Known) (hbase : u.base = v.base) :
    u.dimension = v.dimension := by
  obtain ⟨m, hm, rfl⟩ := hu.exists_named
  obtain ⟨n, hn, rfl⟩ := hv.exists_named
  rw [m.toUnit_base, n.toUnit_base] at hbase
  rw [m.toUnit_dimension, n.toUnit_dimension, hm.dimension_eq hn hbase]

end NamedUnit.Known

namespace CompoundUnit

/-- All factors are known by name. -/
def Known {R : Type} [Scalar R] (u : CompoundUnit R) : Prop :=
  ∀ t ∈ u.terms, t.unit.Known

section

variable {R : Type} [Scalar R]

theorem known_one : (one : CompoundUnit R).Known :=
  fun _ h => absurd h List.not_mem_nil

theorem Known.append {ts us : List (UnitTerm R)} (ht : Known ⟨ts⟩) (hu : Known ⟨us⟩) :
    Known (⟨ts ++ us⟩ : CompoundUnit R) :=
  fun t h => (List.mem_append.mp h).elim (ht t) (hu t)

/-- Changing the powers of factors keeps them known. -/
theorem Known.mapPower {ts : List (UnitTerm R)} (h : Known ⟨ts⟩) (f : Rat → Rat) :
    Known (⟨ts.map fun t => { t with power := f t.power }⟩ : CompoundUnit R) := by
  intro t ht
  obtain ⟨s, hs, rfl⟩ := List.mem_map.mp ht
  exact h s hs

end

/-! ## Dimensions -/

section

variable {R : Type}

theorem power_foldl (ts : List (UnitTerm R)) (d : Dimension) (x : Dimension.Axis) :
    (ts.foldl (fun d t => d.multiply (t.unit.dimension.pow t.power)) d).power x =
      d.power x + (ts.map fun t => t.unit.dimension.power x * t.power).sum := by
  induction ts generalizing d with
  | nil => simp
  | cons t rest ih =>
    rw [List.foldl_cons, ih, Dimension.power_multiply, Dimension.power_pow, List.map_cons,
      List.sum_cons, add_assoc]

theorem power_dimension (ts : List (UnitTerm R)) (x : Dimension.Axis) :
    (CompoundUnit.dimension ⟨ts⟩).power x =
      (ts.map fun t => t.unit.dimension.power x * t.power).sum := by
  rw [dimension, power_foldl, Dimension.power_one, zero_add]

@[simp] theorem power_dimension_nil (x : Dimension.Axis) :
    (CompoundUnit.dimension (⟨[]⟩ : CompoundUnit R)).power x = 0 := by
  simp [power_dimension]

@[simp] theorem power_dimension_cons (t : UnitTerm R) (ts : List (UnitTerm R))
    (x : Dimension.Axis) : (CompoundUnit.dimension ⟨t :: ts⟩).power x =
      t.unit.dimension.power x * t.power + (CompoundUnit.dimension ⟨ts⟩).power x := by
  simp [power_dimension]

@[simp] theorem power_dimension_append (ts us : List (UnitTerm R)) (x : Dimension.Axis) :
    (CompoundUnit.dimension ⟨ts ++ us⟩).power x =
      (CompoundUnit.dimension ⟨ts⟩).power x + (CompoundUnit.dimension ⟨us⟩).power x := by
  simp [power_dimension]

theorem power_dimension_scaled (ts : List (UnitTerm R)) (k : Rat) (x : Dimension.Axis) :
    (CompoundUnit.dimension ⟨ts.map fun t => { t with power := t.power * k }⟩).power x =
      (CompoundUnit.dimension ⟨ts⟩).power x * k := by
  induction ts with
  | nil => simp
  | cons t rest ih =>
    rw [List.map_cons, power_dimension_cons, power_dimension_cons, ih]
    ring

theorem power_dimension_negated (ts : List (UnitTerm R)) (x : Dimension.Axis) :
    (CompoundUnit.dimension ⟨ts.map fun t => { t with power := -t.power }⟩).power x =
      -(CompoundUnit.dimension ⟨ts⟩).power x := by
  induction ts with
  | nil => simp
  | cons t rest ih =>
    rw [List.map_cons, power_dimension_cons, power_dimension_cons, ih]
    ring

theorem normal_foldl (ts : List (UnitTerm R)) {d : Dimension} (h : d.Normal) :
    (ts.foldl (fun d t => d.multiply (t.unit.dimension.pow t.power)) d).Normal := by
  induction ts generalizing d with
  | nil => exact h
  | cons t rest ih => exact ih (h.multiply _)

/-- The dimension of every unit is in normal form. -/
theorem normal_dimension (u : CompoundUnit R) : u.dimension.Normal :=
  normal_foldl u.terms Dimension.normal_one

theorem dimension_ext {u v : CompoundUnit R}
    (h : ∀ x, u.dimension.power x = v.dimension.power x) : u.dimension = v.dimension :=
  Dimension.ext_power u.normal_dimension v.normal_dimension h

theorem isPlain_iff_power {u : CompoundUnit R} :
    u.isPlain = true ↔ ∀ x, u.dimension.power x = 0 :=
  Dimension.isOne_iff_power u.normal_dimension

theorem isPlain_iff_dimension {u : CompoundUnit R} :
    u.isPlain = true ↔ u.dimension = Dimension.one :=
  Dimension.isOne_iff

theorem sameDimension_iff {u v : CompoundUnit R} :
    u.sameDimension v = true ↔ u.dimension = v.dimension := by
  simp [sameDimension]

theorem Known.tickFree [Scalar R] {u : CompoundUnit R} (h : u.Known) : u.dimension.TickFree := by
  obtain ⟨ts⟩ := u
  induction ts with
  | nil => exact fun l hl => absurd (power_dimension_nil _) hl
  | cons t rest ih =>
    have hrest := ih fun s hs => h s (List.mem_cons_of_mem _ hs)
    intro l hl
    rw [power_dimension_cons] at hl
    by_cases hzero : t.unit.dimension.power (.label l) = 0
    · exact hrest l fun hr => hl (by rw [hzero, hr, zero_mul, add_zero])
    · exact (h t List.mem_cons_self).tickFree l hzero

end

/-! ## Sizes -/

/-- The size of a unit in base units. -/
noncomputable def size (u : CompoundUnit ℝ) : ℝ :=
  (u.terms.map fun t => t.unit.factor ^ (t.power : ℝ)).prod

@[simp] theorem size_one : (one : CompoundUnit ℝ).size = 1 := by
  simp [size, one]

@[simp] theorem size_nil : (⟨[]⟩ : CompoundUnit ℝ).size = 1 := by
  simp [size]

@[simp] theorem size_cons (t : UnitTerm ℝ) (ts : List (UnitTerm ℝ)) :
    size ⟨t :: ts⟩ = t.unit.factor ^ (t.power : ℝ) * size ⟨ts⟩ := by
  simp [size]

@[simp] theorem size_append (ts us : List (UnitTerm ℝ)) :
    size ⟨ts ++ us⟩ = size ⟨ts⟩ * size ⟨us⟩ := by
  simp [size]

/-- The sizes of all factors are above zero. -/
def Positive (u : CompoundUnit ℝ) : Prop :=
  ∀ t ∈ u.terms, 0 < t.unit.factor

theorem Known.positive {u : CompoundUnit ℝ} (h : u.Known) : u.Positive :=
  fun t ht => (h t ht).factor_pos

theorem Positive.size_pos {u : CompoundUnit ℝ} (h : u.Positive) : 0 < u.size := by
  obtain ⟨ts⟩ := u
  induction ts with
  | nil => simp
  | cons t rest ih =>
    have ht := h t List.mem_cons_self
    rw [size_cons]
    exact mul_pos (Real.rpow_pos_of_pos ht _) (ih fun s hs => h s (List.mem_cons_of_mem _ hs))

theorem Known.size_pos {u : CompoundUnit ℝ} (h : u.Known) : 0 < u.size :=
  h.positive.size_pos

theorem Positive.size_scaled {ts : List (UnitTerm ℝ)} (h : Positive ⟨ts⟩) (k : Rat) :
    size ⟨ts.map fun t => { t with power := t.power * k }⟩ = size ⟨ts⟩ ^ (k : ℝ) := by
  induction ts with
  | nil => simp
  | cons t rest ih =>
    have hrest : Positive ⟨rest⟩ := fun s hs => h s (List.mem_cons_of_mem _ hs)
    have ht := (h t List.mem_cons_self).le
    rw [List.map_cons, size_cons, size_cons, ih hrest,
      Real.mul_rpow (Real.rpow_nonneg ht _) hrest.size_pos.le, ← Real.rpow_mul ht]
    push_cast
    rfl

theorem size_negated {ts : List (UnitTerm ℝ)} (h : Known ⟨ts⟩) :
    size ⟨ts.map fun t => { t with power := -t.power }⟩ = (size ⟨ts⟩)⁻¹ := by
  induction ts with
  | nil => simp
  | cons t rest ih =>
    have ht := (h t List.mem_cons_self).factor_pos.le
    rw [List.map_cons, size_cons, size_cons, ih fun s hs => h s (List.mem_cons_of_mem _ hs), mul_inv,
      ← Real.rpow_neg ht]
    push_cast
    rfl

theorem Positive.factor_foldlM {ts : List (UnitTerm ℝ)} (h : Positive ⟨ts⟩) (x : ℝ) :
    ts.foldlM (fun x t => return x * (← Checked.powRat t.unit.factor t.power)) x =
      (.ok (x * size ⟨ts⟩) : Except (Fault ℝ) ℝ) := by
  induction ts generalizing x with
  | nil => simp [pure, Except.pure]
  | cons t rest ih =>
    have hpow := Checked.powRat_of_pos (h t List.mem_cons_self) t.power
    rw [List.foldlM_cons, hpow, size_cons, ← mul_assoc]
    exact ih (fun s hs => h s (List.mem_cons_of_mem _ hs)) _

/-- The size of a unit is the product of the powers of the sizes of its factors. -/
theorem Positive.factor_eq {u : CompoundUnit ℝ} (h : u.Positive) : u.factor = .ok u.size := by
  rw [factor, h.factor_foldlM, Scalar.ofNat_real, Nat.cast_one, one_mul]

/-- **The size of a known unit** is the product of the powers of the sizes of its factors. -/
theorem factor_eq {u : CompoundUnit ℝ} (h : u.Known) : u.factor = .ok u.size :=
  h.positive.factor_eq

/-- Values are multiplied by the quotient of the sizes when they change their unit. -/
theorem Positive.conversionFactor_eq {u v : CompoundUnit ℝ} (hu : u.Positive) (hv : v.Positive)
    (h : u.dimension = v.dimension) : u.conversionFactor v = .ok (u.size / v.size) := by
  have hsame : u.sameDimension v = true := sameDimension_iff.mpr h
  rw [conversionFactor, hsame, hu.factor_eq, hv.factor_eq]
  exact Checked.div_of_ne_zero hv.size_pos.ne'

theorem conversionFactor_of_ne {u v : CompoundUnit ℝ} (h : u.dimension ≠ v.dimension) :
    ∃ clash, u.conversionFactor v = .error (.units clash) := by
  have hdiffer : u.sameDimension v = false := by
    rw [← Bool.not_eq_true, sameDimension_iff]
    exact h
  rw [conversionFactor, hdiffer]
  exact ⟨_, rfl⟩

end CompoundUnit

end Ballpark
