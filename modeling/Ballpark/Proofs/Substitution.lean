import Ballpark.Proofs.Conversion
import Ballpark.Proofs.Dependence
import Ballpark.Proofs.Particle
import Ballpark.Proofs.RangeScale

/-!
# Definitions taken in

A unit text is read and brought into canonical form first; then the definitions of its labels are
multiplied in, one after another, each to the power of its label. What has been taken in is a product of
particles in base units and a sum of dimensions (`Session.Takes`): one lemma says what one definition
adds, and the rest is induction over the factors. The factors that are left are put into a unit as they
are, which need not be canonical, so the induction rests on their names alone until the first product.

A label whose powers cancel in the text is no factor of what is read (`CompoundUnit.power_label`), and
its definition is never looked up.
-/

namespace Ballpark

/-! ## Labels among the factors -/

namespace UnitMeaning

theorem power_label_foldl (factors : List (VocabularyEntry × Int)) (d : Dimension) (l : String) :
    (factors.foldl (fun d f => d.multiply (f.1.dimension.pow f.2)) d).power (.label l) =
      d.power (.label l) := by
  induction factors generalizing d with
  | nil => rfl
  | cons f rest ih =>
    rw [List.foldl_cons, ih, Dimension.power_multiply, Dimension.power_pow, f.1.power_label, zero_mul,
      add_zero]

/-- Only a label itself has a power of it. -/
theorem Named.power_label {m : UnitMeaning} (h : m.Named) (l : String) :
    m.dimension.power (.label l) = if m.key = "'" ++ l then 1 else 0 := by
  cases h with
  | @label name _ =>
    have hkey : ("'" ++ name = "'" ++ l) ↔ name = l := String.append_right_inj "'"
    simp only [dimension, key, hkey]
    simp [Dimension.power, Dimension.label]
  | @entry e he =>
    rw [dimension, e.power_label, key, if_neg (label_key_ne he l).symm]
  | @product name scale factors halias =>
    rw [dimension, productDimension, power_label_foldl, Dimension.power_one, key,
      if_neg (product_key_ne_label halias l)]

end UnitMeaning

theorem NamedUnit.Known.power_label {R : Type} [Scalar R] {u : NamedUnit R} (h : u.Known) (l : String) :
    u.dimension.power (.label l) = if u.base = "'" ++ l then 1 else 0 := by
  obtain ⟨m, hm, rfl⟩ := h.exists_named
  rw [m.toUnit_dimension, m.toUnit_base, hm.power_label]

namespace CompoundUnit

variable {R : Type} [Scalar R]

theorem power_label_of_forall_ne {ts : List (UnitTerm R)} (h : Known ⟨ts⟩) {l : String}
    (hne : ∀ t ∈ ts, t.unit.base ≠ "'" ++ l) :
    (CompoundUnit.dimension ⟨ts⟩).power (.label l) = 0 := by
  induction ts with
  | nil => exact power_dimension_nil _
  | cons t rest ih =>
    rw [power_dimension_cons, (h t List.mem_cons_self).power_label,
      if_neg (hne t List.mem_cons_self), zero_mul, zero_add]
    exact ih (fun s hs => h s (List.mem_cons_of_mem _ hs)) fun s hs => hne s (List.mem_cons_of_mem _ hs)

/-- Among factors with different keys the power of a label is that of its factor. -/
theorem power_label {ts : List (UnitTerm R)} (h : Known ⟨ts⟩)
    (hdistinct : (ts.map (·.unit.base)).Nodup) {t : UnitTerm R} (ht : t ∈ ts) {l : String}
    (hbase : t.unit.base = "'" ++ l) : (CompoundUnit.dimension ⟨ts⟩).power (.label l) = t.power := by
  induction ts with
  | nil => exact absurd ht List.not_mem_nil
  | cons s rest ih =>
    rw [List.map_cons, List.nodup_cons] at hdistinct
    have hs := (h s List.mem_cons_self).power_label l
    have hrest : Known ⟨rest⟩ := fun r hr => h r (List.mem_cons_of_mem _ hr)
    rw [power_dimension_cons, hs]
    rcases List.mem_cons.mp ht with rfl | ht
    · have hne : ∀ r ∈ rest, r.unit.base ≠ "'" ++ l := fun r hr heq =>
        hdistinct.1 (by rw [hbase, ← heq]; exact List.mem_map_of_mem hr)
      rw [if_pos hbase, power_label_of_forall_ne hrest hne, one_mul, add_zero]
    · have hne : s.unit.base ≠ "'" ++ l := fun heq =>
        hdistinct.1 (by rw [heq, ← hbase]; exact List.mem_map_of_mem ht)
      rw [if_neg hne, zero_mul, zero_add, ih hrest hdistinct.2 ht]

/-- A label that has cancelled is no factor. -/
theorem Canonical.base_ne_of_power_label {u : CompoundUnit R} (hcanonical : u.Canonical)
    (hknown : u.Known) {l : String} (hzero : u.dimension.power (.label l) = 0) :
    ∀ t ∈ u.terms, t.unit.base ≠ "'" ++ l := fun t ht hbase =>
  hcanonical.nonzero t ht ((power_label hknown hcanonical.distinct ht hbase).symm.trans hzero)

end CompoundUnit

namespace Session

/-! ## Taking definitions in -/

/-- The factors that a program has not defined. -/
def foreignTerms {R : Type} (units : Bindings (Quantity R)) (ts : List (UnitTerm R)) :
    List (UnitTerm R) :=
  ts.filter fun t => !units.contains t.unit.base

/-- The factors that a program has defined, with their definitions. -/
def definedTerms {R : Type} (units : Bindings (Quantity R)) (ts : List (UnitTerm R)) :
    List (UnitTerm R × Quantity R) :=
  ts.filterMap fun t => (units.get? t.unit.base).map (t, ·)

/-- Each definition is sound, and exact or of `n` particles. -/
structure Definitions (n : Nat) (units : Bindings (Quantity ℝ)) : Prop where
  sound : UnitsSound units
  fits : ∀ name q, units.get? name = some q → q.value.Fits n

/-- **What has been taken in**: a quantity times the definitions of some factors, each to the power of
its factor, place by place among the first `n`. -/
structure Takes (n : Nat) (q : Quantity ℝ) (ps : List (UnitTerm ℝ × Quantity ℝ)) (r : Quantity ℝ) :
    Prop where
  known : r.unit.Known
  fits : r.value.Fits n
  isScalar : r.isScalar = (q.isScalar && ps.all (·.2.isScalar))
  power : ∀ x, r.dimension.power x =
    q.dimension.power x + (ps.map fun p => p.2.dimension.power x * p.1.power).sum
  inBase : ∀ i < n, r.inBase i = q.inBase i * (ps.map fun p => p.2.inBase i ^ p.1.power.num).prod

namespace Takes

variable {n : Nat} {q r s : Quantity ℝ} {p : UnitTerm ℝ × Quantity ℝ}
  {ps : List (UnitTerm ℝ × Quantity ℝ)}

theorem nil (hq : q.unit.Known) (hfits : q.value.Fits n) : Takes n q [] q :=
  ⟨hq, hfits, by simp, by simp, by simp⟩

/-- One definition, and then the others. -/
theorem cons (h : Takes n q [p] r) (hrest : Takes n r ps s) : Takes n q (p :: ps) s where
  known := hrest.known
  fits := hrest.fits
  isScalar := by
    rw [hrest.isScalar, h.isScalar]
    simp [Bool.and_assoc]
  power x := by
    rw [hrest.power, h.power]
    simp [add_assoc]
  inBase i hi := by
    rw [hrest.inBase i hi, h.inBase i hi]
    simp [mul_assoc]

end Takes

variable {n : Nat} {units : Bindings (Quantity ℝ)}

/-- **One definition** is multiplied in, to the power of its factor. -/
theorem substitute_takes (hn : 0 < n) (hunits : Definitions n units) {q definition : Quantity ℝ}
    (hq : q.unit.Known) (hfits : q.value.Fits n) {t : UnitTerm ℝ}
    (hdefined : units.get? t.unit.base = some definition) (hwhole : t.power.den = 1) :
    ∃ r, substitute units q t = .ok r ∧ Takes n q [(t, definition)] r := by
  have hsound := hunits.sound _ _ hdefined
  have hpower : ((t.power : Rat) : ℝ) = (t.power.num : ℝ) := by
    rw [← Rat.cast_intCast, Rat.coe_int_num_of_den_eq_one hwhole]
  obtain ⟨p, hp, hmaps⟩ := (Quantity.actsOn_pow t.power.num definition hsound).succeeds trivial
  obtain ⟨r, hr, hcombines⟩ := Quantity.multiply_of_known hq hmaps.sound.known
  have hpfits : p.value.Fits n := by
    have hdefinition := hunits.fits _ _ hdefined
    rw [Value.Fits, ← Quantity.isScalar_eq, ← Quantity.size_eq, hmaps.isScalar, hmaps.size]
    exact hdefinition
  refine ⟨r, ?_, hcombines.sound.known, hcombines.shape hn hfits hpfits, ?_, fun x => ?_,
    fun i hi => ?_⟩
  · rw [substitute, hdefined]
    simp only [Checked.ofRat_real, bind, Except.bind, hpower, hp, hr]
  · rw [hcombines.isScalar, hmaps.isScalar]
    simp
  · rw [hcombines.dimension, Dimension.power_multiply, hmaps.dimension, Dimension.power_pow]
    simp [Rat.coe_int_num_of_den_eq_one hwhole]
  · rw [hcombines.inBase_of_lt hi hfits hpfits, hmaps.inBase]
    simp

/-- **All definitions** are multiplied in, one after another. -/
theorem foldlM_substitute_takes (hn : 0 < n) (hunits : Definitions n units) {ts : List (UnitTerm ℝ)}
    (hwhole : ∀ p ∈ definedTerms units ts, p.1.power.den = 1) {q : Quantity ℝ} (hq : q.unit.Known)
    (hfits : q.value.Fits n) :
    ∃ r, ts.foldlM (substitute units) q = .ok r ∧ Takes n q (definedTerms units ts) r := by
  induction ts generalizing q with
  | nil => exact ⟨q, rfl, .nil hq hfits⟩
  | cons t rest ih =>
    rcases hdefined : units.get? t.unit.base with _ | definition
    · have hskip : definedTerms units (t :: rest) = definedTerms units rest := by
        simp [definedTerms, hdefined]
      rw [hskip] at hwhole ⊢
      rw [List.foldlM_cons, substitute_of_none hdefined]
      exact ih hwhole hq hfits
    · have htake : definedTerms units (t :: rest) = (t, definition) :: definedTerms units rest := by
        simp [definedTerms, hdefined]
      rw [htake] at hwhole ⊢
      obtain ⟨ht, hrest⟩ := List.forall_mem_cons.mp hwhole
      obtain ⟨p, hp, htakes⟩ := substitute_takes hn hunits hq hfits hdefined ht
      obtain ⟨r, hr, hothers⟩ := ih hrest htakes.known htakes.fits
      refine ⟨r, ?_, htakes.cons hothers⟩
      rw [List.foldlM_cons, hp]
      exact hr

/-- A label that cancels in a text is not looked up. -/
theorem unitQuantity_of_cancelled {text : String} {u : CompoundUnit ℝ} {scale : ℝ}
    (htext : CompoundUnit.ofText text = .ok (u, scale)) {label : String}
    (hcancelled : u.dimension.power (.label label) = 0) {units' : Bindings (Quantity ℝ)}
    (hsame : ∀ key, key ≠ "'" ++ label → units'.get? key = units.get? key) :
    unitQuantity units' text = unitQuantity units text := by
  obtain ⟨hknown, hcanonical⟩ := CompoundUnit.ofText_sound htext
  refine unitQuantity_congr fun key ⟨u', scale', hread, t, ht, hbase⟩ => hsame key ?_
  have heq : (u', scale') = (u, scale) := Except.ok.inj (hread.symm.trans htext)
  have hu : u' = u := congrArg Prod.fst heq
  exact hbase ▸ hcanonical.base_ne_of_power_label hknown hcancelled t (hu ▸ ht)

/-- **Definitions of units are substituted.** A program has defined some labels as quantities in
canonical units, exact or of `n` particles; a text is read as a unit and a number, the powers of the
labels that are defined being whole. Then the text stands for a quantity in a canonical unit, exact if
all definitions that it takes in are, and of `n` particles else. In base units it is the number, times
the sizes of the factors that are not defined, times the particles of the definitions, each to the power
of its factor, at every place; and its dimension is theirs, power by power. (A negative power of a zero
is zero here, as in division of real numbers.) A label whose powers cancel in the text may be defined in
any way, or not at all. -/
theorem unitQuantity_substitutes (hn : 0 < n) (hunits : Definitions n units) {text : String}
    {u : CompoundUnit ℝ} {scale : ℝ} (htext : CompoundUnit.ofText text = .ok (u, scale))
    (hwhole : ∀ p ∈ definedTerms units u.terms, p.1.power.den = 1) :
    (∃ q, unitQuantity units text = .ok q ∧ q.Sound ∧
      q.isScalar = (definedTerms units u.terms).all (·.2.isScalar) ∧
      (q.isScalar = true ∨ q.size = n) ∧
      (∀ x, q.dimension.power x =
        ((foreignTerms units u.terms).map fun t => t.unit.dimension.power x * t.power).sum +
        ((definedTerms units u.terms).map fun p => p.2.dimension.power x * p.1.power).sum) ∧
      ∀ i < n, q.inBase i = scale *
        ((foreignTerms units u.terms).map fun t => t.unit.factor ^ (t.power : ℝ)).prod *
        ((definedTerms units u.terms).map fun p => p.2.inBase i ^ p.1.power.num).prod) ∧
    ∀ (label : String) (units' : Bindings (Quantity ℝ)), u.dimension.power (.label label) = 0 →
      (∀ key, key ≠ "'" ++ label → units'.get? key = units.get? key) →
      unitQuantity units' text = unitQuantity units text := by
  refine ⟨?_, fun label units' hcancelled hsame => unitQuantity_of_cancelled htext hcancelled hsame⟩
  have hknown := (CompoundUnit.ofText_sound htext).1
  have hpart : CompoundUnit.Known ⟨foreignTerms units u.terms⟩ :=
    fun t ht => hknown t (List.mem_of_mem_filter ht)
  -- the fold starts from the number and the factors that have no definition
  obtain ⟨q, hq, htakes⟩ := foldlM_substitute_takes hn hunits hwhole
    (q := ⟨.scalar scale, ⟨foreignTerms units u.terms⟩⟩) hpart (.inl rfl)
  have hrun : unitQuantity units text = .ok q := by
    rw [unitQuantity, htext]
    exact hq
  refine ⟨q, hrun, unitQuantity_sound hunits.sound hrun, ?_, htakes.fits, fun x => ?_, fun i hi => ?_⟩
  · rw [htakes.isScalar]
    rfl
  · rw [htakes.power, Quantity.dimension, CompoundUnit.power_dimension]
  · rw [htakes.inBase i hi, Quantity.inBase_mk, Value.particle_scalar, CompoundUnit.size]

/-! ## Widgets of one or two kilometres -/

/-- A widget of an uncertain length. -/
noncomputable def widget : Quantity ℝ :=
  ⟨.sample ⟨1, [2]⟩, kilometres⟩

/-- A program that has defined widgets. -/
noncomputable def withWidgets : Bindings (Quantity ℝ) :=
  Bindings.empty.set "'widget" widget

theorem definitions_withWidgets : Definitions 2 withWidgets := by
  have hall : ∀ name q, withWidgets.get? name = some q → q = widget := by
    intro name q h
    rw [withWidgets, Bindings.get?_set] at h
    split at h
    · exact (Option.some.inj h).symm
    · cases h
  refine ⟨fun name q h => ?_, fun name q h => ?_⟩
  · rw [hall name q h]
    exact scaleFree_kilometres.sound _
  · rw [hall name q h]
    exact .inr rfl

/-- A widget is what it has been defined as. -/
theorem unitQuantity_widget : ∃ q, unitQuantity withWidgets "'widget" = .ok q ∧ q.size = 2 ∧
    q.inBase 1 = 2 * kilometres.size := by
  let t : UnitTerm ℝ := ⟨"'widget", (UnitMeaning.label (UnitName.labelName "'widget")).toUnit, 1⟩
  have hbase : t.unit.base = "'widget" := by
    rw [UnitMeaning.toUnit_base, CompoundUnit.labelName_of_isLabel isLabel_widget]
    rfl
  have hget : withWidgets.get? t.unit.base = some widget := by
    rw [hbase, withWidgets, Bindings.get?_set, if_pos rfl]
  have hdefined : definedTerms withWidgets (CompoundUnit.ofLabel "'widget").terms = [(t, widget)] := by
    simp [definedTerms, CompoundUnit.ofLabel, t, hget]
  have hforeign : foreignTerms withWidgets (CompoundUnit.ofLabel "'widget").terms = [] := by
    have hcontains : (!withWidgets.contains t.unit.base) = false := by
      rw [Bindings.contains, hget]
      rfl
    change [t].filter (fun t => !withWidgets.contains t.unit.base) = []
    rw [List.filter_cons_of_neg (by rw [hcontains]; exact Bool.false_ne_true), List.filter_nil]
  have hwhole : ∀ p ∈ definedTerms withWidgets (CompoundUnit.ofLabel "'widget").terms,
      p.1.power.den = 1 := by
    rw [hdefined]
    exact List.forall_mem_singleton.mpr rfl
  obtain ⟨⟨q, hq, -, hscalar, hshape, -, hinBase⟩, -⟩ := unitQuantity_substitutes two_pos
    definitions_withWidgets (CompoundUnit.ofText_label isLabel_widget) hwhole
  rw [hdefined] at hscalar hinBase
  have hsample : ¬q.isScalar = true := by
    rw [hscalar]
    exact Bool.false_ne_true
  refine ⟨q, hq, hshape.resolve_left hsample, ?_⟩
  rw [hinBase 1 one_lt_two, hforeign]
  have hparticle : widget.inBase 1 = 2 * kilometres.size := rfl
  simp [t, hparticle]

end Session

end Ballpark
