import Ballpark.Proofs.CanonicalUnit

/-!
# Arithmetic of units

One lemma for each operation on units whose factors are known: products, quotients, powers and the way
to base units. Each says that the operation succeeds, what dimension it gives, and how the size of its
result and the scale that comes with it are related to the sizes that went in.

That no scale comes with a power of a canonical unit takes neither known factors nor exact numbers: its
factors stay apart, whatever their powers are multiplied by (`CompoundUnit.canonicalize_scaled`).
-/

namespace Ballpark.CompoundUnit

/-- What a product or quotient gives: a unit in canonical form of a given dimension, and a scale that
together with the unit's size makes up a given size. -/
structure Makes (dimension : Dimension) (size : ℝ) (u : CompoundUnit ℝ) (scale : ℝ) : Prop where
  known : u.Known
  canonical : u.Canonical
  dimension : u.dimension = dimension
  size : scale * u.size = size

theorem multiply_spec {u v : CompoundUnit ℝ} (hu : u.Known) (hv : v.Known) :
    ∃ w scale, u.multiply v = .ok (w, scale) ∧
      Makes (u.dimension.multiply v.dimension) (u.size * v.size) w scale := by
  have hknown : Known ⟨u.terms ++ v.terms⟩ := hu.append hv
  obtain ⟨w, scale, hw, hspec⟩ := canonicalize_spec hknown
  refine ⟨w, scale, hw, hspec.known hknown, hspec.canonical, ?_, ?_⟩
  · rw [hspec.dimension]
    refine Dimension.ext_power (normal_dimension _) (u.normal_dimension.multiply _) fun x => ?_
    rw [power_dimension_append, Dimension.power_multiply]
  · rw [hspec.size, size_append]

theorem divide_spec {u v : CompoundUnit ℝ} (hu : u.Known) (hv : v.Known) :
    ∃ w scale, u.divide v = .ok (w, scale) ∧
      Makes (u.dimension.divide v.dimension) (u.size / v.size) w scale := by
  have hknown : Known ⟨u.terms ++ v.terms.map fun t => { t with power := -t.power }⟩ :=
    hu.append (Known.mapPower hv (-·))
  obtain ⟨w, scale, hw, hspec⟩ := canonicalize_spec hknown
  refine ⟨w, scale, hw, hspec.known hknown, hspec.canonical, ?_, ?_⟩
  · rw [hspec.dimension]
    refine Dimension.ext_power (normal_dimension _) (u.normal_dimension.divide _) fun x => ?_
    rw [power_dimension_append, power_dimension_negated, Dimension.power_divide, sub_eq_add_neg]
  · rw [hspec.size, size_append, size_negated hv, div_eq_mul_inv]

/-! ## Powers -/

section Scaleless

variable {R : Type} [Scalar R]

/-- Factors that are in canonical form among themselves are taken in as they are. -/
theorem foldlM_add_append {m : Merging R} {ts : List (UnitTerm R)} (hnonzero : ∀ t ∈ ts, t.power ≠ 0)
    (hdimensional : ∀ t ∈ ts, t.unit.dimension.isOne = false)
    (hdistinct : ((m.terms ++ ts).map (·.unit.base)).Nodup) :
    ts.foldlM Merging.add m = .ok ⟨m.scale, m.terms ++ ts⟩ := by
  induction ts generalizing m with
  | nil =>
    rw [List.append_nil]
    rfl
  | cons t rest ih =>
    have hnew : m.terms.find? (·.unit.base == t.unit.base) = none := by
      refine List.find?_eq_none.mpr fun s hs heq => ?_
      rw [List.map_append] at hdistinct
      exact (List.nodup_append.mp hdistinct).2.2 _ (List.mem_map_of_mem hs) _
        (List.mem_map_of_mem List.mem_cons_self) (beq_iff_eq.mp heq)
    have hadd : m.add t = .ok ⟨m.scale, m.terms ++ [t]⟩ := by
      rw [Merging.add, if_neg (hnonzero t List.mem_cons_self), hdimensional t List.mem_cons_self, hnew]
      rfl
    rw [List.foldlM_cons, hadd]
    have happend : m.terms ++ t :: rest = m.terms ++ [t] ++ rest := by simp
    rw [happend] at hdistinct ⊢
    exact ih (m := ⟨m.scale, m.terms ++ [t]⟩) (fun s hs => hnonzero s (List.mem_cons_of_mem _ hs))
      (fun s hs => hdimensional s (List.mem_cons_of_mem _ hs)) hdistinct

/-- The canonical form of factors that need no merging sets no scale free. -/
theorem canonicalize_distinct {ts : List (UnitTerm R)} (hnonzero : ∀ t ∈ ts, t.power ≠ 0)
    (hdimensional : ∀ t ∈ ts, t.unit.dimension.isOne = false)
    (hdistinct : (ts.map (·.unit.base)).Nodup)
    (hplain : (⟨ts⟩ : CompoundUnit R).isPlain = true → ts = []) :
    canonicalize ts = .ok (⟨ordered ts⟩, Scalar.ofNat 1) := by
  have hfold := foldlM_add_append (m := ⟨Scalar.ofNat 1, []⟩) hnonzero hdimensional hdistinct
  have hdimension : (⟨ordered ts⟩ : CompoundUnit R).dimension = CompoundUnit.dimension ⟨ts⟩ :=
    dimension_ext fun x => power_dimension_ordered ts x
  have hkept : ¬(!(ordered ts).isEmpty && (⟨ordered ts⟩ : CompoundUnit R).isPlain) = true := by
    intro h
    simp only [Bool.and_eq_true, Bool.not_eq_true', isPlain, hdimension] at h
    have hnil := hplain h.2
    rw [hnil] at h
    exact Bool.false_ne_true h.1.symm
  rw [canonicalize, hfold]
  simp only [bind, Except.bind, Merging.finish, List.nil_append, ordered_filter, if_neg hkept]
  rfl

/-- **Canonical form is reached once**: a canonical unit is its own canonical form. -/
theorem canonicalize_canonical {u : CompoundUnit R} (h : u.Canonical) :
    canonicalize u.terms = .ok (u, Scalar.ofNat 1) := by
  rw [canonicalize_distinct h.nonzero h.dimensional h.distinct h.plain, h.ordered]

omit [Scalar R] in
theorem isPlain_scaled {ts : List (UnitTerm R)} {k : Rat} (hk : k ≠ 0)
    (h : (⟨ts.map fun t => { t with power := t.power * k }⟩ : CompoundUnit R).isPlain = true) :
    (⟨ts⟩ : CompoundUnit R).isPlain = true := by
  rw [isPlain_iff_power] at h ⊢
  intro x
  have hx := h x
  rw [power_dimension_scaled] at hx
  exact (mul_eq_zero.mp hx).resolve_right hk

theorem canonicalize_zero_powers {ts : List (UnitTerm R)} (h : ∀ t ∈ ts, t.power = 0) :
    canonicalize ts = .ok (one, Scalar.ofNat 1) := by
  have hfold : ∀ m : Merging R, ts.foldlM Merging.add m = .ok m := by
    induction ts with
    | nil => exact fun m => rfl
    | cons t rest ih =>
      intro m
      have hadd : m.add t = .ok m := by
        rw [Merging.add, if_pos (h t List.mem_cons_self)]
        rfl
      rw [List.foldlM_cons, hadd]
      exact ih (fun s hs => h s (List.mem_cons_of_mem _ hs)) m
  rw [canonicalize, hfold]
  rfl

/-- The factors of a canonical unit stay apart when all their powers are multiplied by one that is not
zero; they need to be put in order only. -/
theorem Canonical.canonicalize_scaled_of_ne_zero {u : CompoundUnit R} (h : u.Canonical) {k : Rat}
    (hk : k ≠ 0) :
    canonicalize (u.terms.map fun t => { t with power := t.power * k }) =
      .ok (⟨CompoundUnit.ordered (u.terms.map fun t => { t with power := t.power * k })⟩,
        Scalar.ofNat 1) := by
  refine canonicalize_distinct ?_ ?_ ?_ fun hplain => ?_
  · intro t ht
    obtain ⟨s, hs, rfl⟩ := List.mem_map.mp ht
    exact mul_ne_zero (h.nonzero s hs) hk
  · intro t ht
    obtain ⟨s, hs, rfl⟩ := List.mem_map.mp ht
    exact h.dimensional s hs
  · rw [List.map_map]
    exact h.distinct
  · rw [h.plain (isPlain_scaled hk hplain)]
    rfl

/-- **No scale comes with a power**: the factors of a canonical unit stay apart when all their powers
are multiplied, or go all at once. -/
theorem canonicalize_scaled {u : CompoundUnit R} (h : u.Canonical) (k : Rat) :
    ∃ w, canonicalize (u.terms.map fun t => { t with power := t.power * k }) =
      .ok (w, Scalar.ofNat 1) := by
  by_cases hk : k = 0
  · refine ⟨one, canonicalize_zero_powers fun t ht => ?_⟩
    obtain ⟨s, -, rfl⟩ := List.mem_map.mp ht
    exact mul_eq_zero_of_right _ hk
  · exact ⟨_, h.canonicalize_scaled_of_ne_zero hk⟩

end Scaleless

theorem size_eq_one_of_nil {u : CompoundUnit ℝ} (h : u.terms = []) : u.size = 1 := by
  simp [size, h]

theorem dimension_eq_one_of_nil {R : Type} {u : CompoundUnit R} (h : u.terms = []) :
    u.dimension = Dimension.one := by
  simp [dimension, h]

/-- A canonical unit of plain numbers is the unit of plain numbers. -/
theorem Canonical.eq_one {R : Type} {u : CompoundUnit R} (h : u.Canonical) (hplain : u.isPlain = true) :
    u = one := by
  obtain ⟨ts⟩ := u
  have hnil : ts = [] := h.plain hplain
  rw [hnil]
  rfl

/-- **Powers of canonical units** have the power of the size, for any exponent that is a fraction. -/
theorem pow_spec {u : CompoundUnit ℝ} (hknown : u.Known) (hcanonical : u.Canonical) (k : Rat) :
    ∃ w, u.pow (k : ℝ) = .ok w ∧
      Makes (u.dimension.pow (Exponent.snap k)) (u.size ^ (Exponent.snap k : ℝ)) w 1 := by
  by_cases hnil : u.terms = []
  · refine ⟨u, by simp [pow, hnil, pure, Except.pure], hknown, hcanonical, ?_, ?_⟩
    · refine Dimension.ext_power u.normal_dimension (u.normal_dimension.pow _) fun x => ?_
      rw [Dimension.power_pow, dimension_eq_one_of_nil hnil, Dimension.power_one, zero_mul]
    · rw [size_eq_one_of_nil hnil, Real.one_rpow, mul_one]
  · -- the scale is one, for nothing is merged; the rest is what canonical form always gives
    have hscaled : Known ⟨u.terms.map fun t => { t with power := t.power * Exponent.snap k }⟩ :=
      Known.mapPower hknown (· * Exponent.snap k)
    obtain ⟨w, hw⟩ := canonicalize_scaled hcanonical (Exponent.snap k)
    obtain ⟨w', scale, hw', hspec⟩ := canonicalize_spec hscaled
    obtain ⟨rfl, rfl⟩ : w = w' ∧ Scalar.ofNat 1 = scale := by
      simpa only [Except.ok.injEq, Prod.mk.injEq] using hw.symm.trans hw'
    refine ⟨w, ?_, hspec.known hscaled, hspec.canonical, ?_, ?_⟩
    · have hsome : u.terms.isEmpty = false := by simp [hnil]
      simp only [pow, hsome, Scalar.isFinite_real, Exponent.ofScalar_ratCast, bind, Except.bind, hw]
      rfl
    · rw [hspec.dimension]
      refine Dimension.ext_power (normal_dimension _) (u.normal_dimension.pow _) fun x => ?_
      rw [power_dimension_scaled, Dimension.power_pow]
    · have hsize := hspec.size
      rwa [hknown.positive.size_scaled, Scalar.ofNat_real, Nat.cast_one] at hsize

end Ballpark.CompoundUnit
