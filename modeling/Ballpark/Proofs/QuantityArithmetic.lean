import Ballpark.Proofs.BaseUnit
import Ballpark.Quantity
import Ballpark.Proofs.Sample
import Ballpark.Proofs.UnitText

/-!
# Arithmetic of quantities

What a quantity stands for is its particles in base units: each particle times the size of the unit.
Every operation is an operation of these numbers. Sums and differences exist exactly between
quantities of one dimension, products and quotients always exist, and a change of unit changes nothing
(`Quantity.arithmetic_in_base_units`). Behind each part stands one lemma about the operation alone,
which the evaluation of programs uses as well.
-/

namespace Ballpark

/-- A single factor with a dimension is in canonical form. -/
theorem CompoundUnit.canonical_single {R : Type} [Scalar R] {t : UnitTerm R} (hknown : t.unit.Known)
    (hpower : t.power ≠ 0) (hdimensional : t.unit.dimension.isOne = false) :
    (⟨[t]⟩ : CompoundUnit R).Canonical := by
  refine ⟨by simpa using hpower, by simpa using hdimensional, by simp, by simp, fun hplain => ?_⟩
  have hzero : t.unit.dimension.isOne = true := by
    refine (Dimension.isOne_iff_power hknown.normal).mpr fun x => ?_
    have hx := isPlain_iff_power.mp hplain x
    rw [power_dimension_cons, power_dimension_nil, add_zero] at hx
    exact (mul_eq_zero.mp hx).resolve_right hpower
  rw [hdimensional] at hzero
  cases hzero

namespace Quantity

/-- A unit in canonical form, of factors that are known by name. -/
structure Sound (q : Quantity ℝ) : Prop where
  known : q.unit.Known
  canonical : q.unit.Canonical

/-- The particle at a place, in base units. -/
noncomputable def inBase (q : Quantity ℝ) (i : Nat) : ℝ :=
  q.value.particle i * q.unit.size

/-- The dimension of a quantity. -/
def dimension {R : Type} (q : Quantity R) : Dimension :=
  q.unit.dimension

theorem sound_plain (x : ℝ) : (plain x).Sound :=
  ⟨CompoundUnit.known_one, CompoundUnit.canonical_one⟩

theorem size_eq {R : Type} (q : Quantity R) : q.size = q.value.size := rfl

theorem isScalar_eq {R : Type} (q : Quantity R) : q.isScalar = q.value.isScalar := rfl

/-- Particles in base units know nothing of the unit they are written in. -/
theorem inBase_mk (v : Value ℝ) (u : CompoundUnit ℝ) (i : Nat) :
    inBase ⟨v, u⟩ i = v.particle i * u.size := rfl

/-! ## One operand -/

/-- One quantity stands for a function of the numbers that another stands for, particle by particle. -/
structure MapsTo (q r : Quantity ℝ) (dimension : Dimension) (f : ℝ → ℝ) : Prop where
  sound : r.Sound
  dimension : r.dimension = dimension
  isScalar : r.isScalar = q.isScalar
  size : r.size = q.size
  inBase : ∀ i, r.inBase i = f (q.inBase i)

theorem negate_mapsTo {q : Quantity ℝ} (h : q.Sound) : MapsTo q q.negate q.dimension (- ·) where
  sound := ⟨h.known, h.canonical⟩
  dimension := rfl
  isScalar := Value.isScalar_map _ q.value
  size := Value.size_map _ q.value
  inBase i := by
    rw [inBase, inBase, negate, map, Value.particle_map, neg_mul]

theorem convert_of_positive {q : Quantity ℝ} {u : CompoundUnit ℝ} (hq : q.unit.Positive)
    (hu : u.Positive) (h : q.dimension = u.dimension) :
    q.convert u = .ok ⟨q.value.map (· * (q.unit.size / u.size)), u⟩ := by
  rw [convert, hq.conversionFactor_eq hu h]
  rfl

theorem convert_eq {q : Quantity ℝ} {u : CompoundUnit ℝ} (hq : q.unit.Known) (hu : u.Known)
    (h : q.dimension = u.dimension) :
    q.convert u = .ok ⟨q.value.map (· * (q.unit.size / u.size)), u⟩ :=
  convert_of_positive hq.positive hu.positive h

theorem convert_of_ne {q : Quantity ℝ} {u : CompoundUnit ℝ} (h : q.dimension ≠ u.dimension) :
    ∃ clash, q.convert u = .error (.units clash) := by
  obtain ⟨clash, hclash⟩ := CompoundUnit.conversionFactor_of_ne h
  rw [convert, hclash]
  exact ⟨clash, rfl⟩

/-- A change of the unit keeps what the quantity stands for. -/
theorem convert_mapsTo {q : Quantity ℝ} {u : CompoundUnit ℝ} (hq : q.unit.Known) (hu : u.Known)
    (hcanonical : u.Canonical) (h : q.dimension = u.dimension) :
    ∃ r, q.convert u = .ok r ∧ r.unit = u ∧ MapsTo q r q.dimension id := by
  refine ⟨_, convert_eq hq hu h, rfl, ⟨hu, hcanonical⟩, h.symm, Value.isScalar_map _ _,
    Value.size_map _ _, fun i => ?_⟩
  have hpos := hu.size_pos.ne'
  rw [inBase_mk, Value.particle_map, inBase, id]
  field_simp

theorem toBase_mapsTo {q : Quantity ℝ} (hq : q.unit.Known) :
    ∃ r, q.toBase = .ok r ∧ r.unit.factor = .ok 1 ∧ MapsTo q r q.dimension id := by
  obtain ⟨w, hw, hmakes⟩ := CompoundUnit.toBase_spec hq
  have hsize : w.size = 1 := by rw [← one_mul w.size, hmakes.size]
  refine ⟨⟨q.value.map (· * q.unit.size), w⟩, ?_, ?_, ⟨hmakes.known, hmakes.canonical⟩,
    hmakes.dimension, Value.isScalar_map _ _, Value.size_map _ _, fun i => ?_⟩
  · rw [toBase, hw]
    rfl
  · rw [CompoundUnit.factor_eq hmakes.known, hsize]
  · rw [inBase_mk, Value.particle_map, hsize, mul_one, inBase, id]

/-! ## Two operands -/

/-- A quantity stands for a function of the numbers that two others stand for: it is exact exactly when
both are, and otherwise as long as the longer one, the shorter one starting again. -/
structure Combines (a b r : Quantity ℝ) (dimension : Dimension) (f : ℝ → ℝ → ℝ) : Prop where
  sound : r.Sound
  dimension : r.dimension = dimension
  isScalar : r.isScalar = (a.isScalar && b.isScalar)
  size : r.size = Max.max a.size b.size
  inBase : ∀ i, i < Max.max a.size b.size → r.inBase i = f (a.inBase i) (b.inBase i)

theorem commonFactor_of_positive {action : String} {a b : Quantity ℝ} (ha : a.unit.Positive)
    (hb : b.unit.Positive) (h : a.dimension = b.dimension) :
    commonFactor action a b = .ok (b.unit.size / a.unit.size) := by
  have hsame : a.unit.sameDimension b.unit = true := CompoundUnit.sameDimension_iff.mpr h
  rw [commonFactor, hsame]
  exact hb.conversionFactor_eq ha h.symm

theorem commonFactor_eq {action : String} {a b : Quantity ℝ} (ha : a.unit.Known) (hb : b.unit.Known)
    (h : a.dimension = b.dimension) :
    commonFactor action a b = .ok (b.unit.size / a.unit.size) :=
  commonFactor_of_positive ha.positive hb.positive h

theorem commonFactor_of_ne (action : String) {a b : Quantity ℝ} (h : a.dimension ≠ b.dimension) :
    ∃ clash, commonFactor action a b = .error (.units clash) := by
  have hdiffer : a.unit.sameDimension b.unit = false := by
    rw [← Bool.not_eq_true, CompoundUnit.sameDimension_iff]
    exact h
  rw [commonFactor, hdiffer]
  exact ⟨_, rfl⟩

/-- A combination in the unit of the first operand, the second being brought into it. -/
theorem combines_in_first {a b : Quantity ℝ} (ha : a.Sound) {f g : ℝ → ℝ → ℝ}
    (hf : ∀ x y, f x (y * (b.unit.size / a.unit.size)) * a.unit.size =
      g (x * a.unit.size) (y * b.unit.size)) :
    Combines a b
      ⟨a.value.zipWith (fun x y => f x (y * (b.unit.size / a.unit.size))) b.value, a.unit⟩
      a.dimension g where
  sound := ⟨ha.known, ha.canonical⟩
  dimension := rfl
  isScalar := Value.isScalar_zipWith _ _ _
  size := Value.size_zipWith _ _ _
  inBase i hi := by
    rw [inBase_mk, Value.particle_zipWith _ _ _ hi]
    exact hf _ _

theorem add_combines {a b : Quantity ℝ} (ha : a.Sound) (hb : b.Sound)
    (h : a.dimension = b.dimension) :
    ∃ r, a.add b = .ok r ∧ Combines a b r a.dimension (· + ·) := by
  have hpos := ha.known.size_pos.ne'
  refine ⟨_, ?_, combines_in_first ha (f := (· + ·)) fun x y => by field_simp⟩
  rw [add, commonFactor_eq ha.known hb.known h]
  rfl

theorem subtract_combines {a b : Quantity ℝ} (ha : a.Sound) (hb : b.Sound)
    (h : a.dimension = b.dimension) :
    ∃ r, a.subtract b = .ok r ∧ Combines a b r a.dimension (· - ·) := by
  have hpos := ha.known.size_pos.ne'
  refine ⟨_, ?_, combines_in_first ha (f := (· - ·)) fun x y => by field_simp⟩
  rw [subtract, commonFactor_eq ha.known hb.known h]
  rfl

theorem add_of_ne {a b : Quantity ℝ} (h : a.dimension ≠ b.dimension) :
    ∃ clash, a.add b = .error (.units clash) := by
  obtain ⟨clash, hclash⟩ := commonFactor_of_ne "add" h
  rw [add, hclash]
  exact ⟨clash, rfl⟩

theorem subtract_of_ne {a b : Quantity ℝ} (h : a.dimension ≠ b.dimension) :
    ∃ clash, a.subtract b = .error (.units clash) := by
  obtain ⟨clash, hclash⟩ := commonFactor_of_ne "subtract" h
  rw [subtract, hclash]
  exact ⟨clash, rfl⟩

/-- Products come into canonical form whether or not their operands are. -/
theorem multiply_of_known {a b : Quantity ℝ} (ha : a.unit.Known) (hb : b.unit.Known) :
    ∃ r, a.multiply b = .ok r ∧ Combines a b r (a.dimension.multiply b.dimension) (· * ·) := by
  obtain ⟨w, scale, hw, hmakes⟩ := CompoundUnit.multiply_spec ha hb
  refine ⟨⟨a.value.zipWith (fun x y => x * y * scale) b.value, w⟩, ?_,
    ⟨hmakes.known, hmakes.canonical⟩, hmakes.dimension, Value.isScalar_zipWith _ _ _,
    Value.size_zipWith _ _ _, fun i hi => ?_⟩
  · rw [multiply, hw]
    rfl
  · rw [inBase_mk, Value.particle_zipWith _ _ _ hi, mul_assoc, hmakes.size, inBase, inBase]
    ring

theorem multiply_combines {a b : Quantity ℝ} (ha : a.Sound) (hb : b.Sound) :
    ∃ r, a.multiply b = .ok r ∧ Combines a b r (a.dimension.multiply b.dimension) (· * ·) :=
  multiply_of_known ha.known hb.known

theorem divide_combines {a b : Quantity ℝ} (ha : a.Sound) (hb : b.Sound) :
    ∃ r, a.divide b = .ok r ∧ Combines a b r (a.dimension.divide b.dimension) (· / ·) := by
  obtain ⟨w, scale, hw, hmakes⟩ := CompoundUnit.divide_spec ha.known hb.known
  refine ⟨⟨a.value.zipWith (fun x y => x / y * scale) b.value, w⟩, ?_,
    ⟨hmakes.known, hmakes.canonical⟩, hmakes.dimension, Value.isScalar_zipWith _ _ _,
    Value.size_zipWith _ _ _, fun i hi => ?_⟩
  · rw [divide, hw]
    rfl
  · rw [inBase_mk, Value.particle_zipWith _ _ _ hi, mul_assoc, hmakes.size, inBase, inBase,
      div_mul_div_comm]

/-! ## All operations -/

/-- An operation succeeds, with a result of a given kind, exactly under a condition on the units. -/
structure ExactlyIf (condition : Prop) (e : Except (Fault ℝ) (Quantity ℝ)) (P : Quantity ℝ → Prop) :
    Prop where
  succeeds : condition → ∃ r, e = .ok r ∧ P r
  fails : ¬condition → ∃ clash, e = .error (.units clash)

theorem convert_exactlyIf {q : Quantity ℝ} {u : CompoundUnit ℝ} (hq : q.unit.Known) (hu : u.Known)
    (hcanonical : u.Canonical) : ExactlyIf (q.dimension = u.dimension) (q.convert u) fun r =>
      r.unit = u ∧ MapsTo q r q.dimension id :=
  ⟨fun h => convert_mapsTo hq hu hcanonical h, fun h => convert_of_ne h⟩

/-- **Arithmetic of quantities is arithmetic of numbers in base units.** A quantity `q` stands for
`q.inBase i`, the particle at the place `i`, counted cyclically, times the size of its unit. For
quantities whose units are canonical products of known factors, exact or of any numbers of particles:

* sums and differences exist exactly if the dimensions are equal, products and quotients always;
* they stand for the sums, differences, products and quotients of what their operands stand for, place
  by place, and they are exact exactly if both operands are;
* the opposite stands for the opposite numbers;
* a change to another unit exists exactly if the dimensions are equal, and it changes no number, nor
  does the way to base units, which ends in a unit of size one.

A quotient is that of the numbers wherever the divisor is not zero. -/
theorem arithmetic_in_base_units {a b : Quantity ℝ} (ha : a.Sound) (hb : b.Sound) :
    (a.unit.factor = .ok a.unit.size ∧ ∀ i, a.inBase i = a.value.particle i * a.unit.size) ∧
    ExactlyIf (a.dimension = b.dimension) (a.add b) (Combines a b · a.dimension (· + ·)) ∧
    ExactlyIf (a.dimension = b.dimension) (a.subtract b) (Combines a b · a.dimension (· - ·)) ∧
    (∃ r, a.multiply b = .ok r ∧ Combines a b r (a.dimension.multiply b.dimension) (· * ·)) ∧
    (∃ r, a.divide b = .ok r ∧ Combines a b r (a.dimension.divide b.dimension) (· / ·)) ∧
    MapsTo a a.negate a.dimension (- ·) ∧
    (∀ u : CompoundUnit ℝ, u.Known → u.Canonical →
      ExactlyIf (a.dimension = u.dimension) (a.convert u) fun r =>
        r.unit = u ∧ MapsTo a r a.dimension id) ∧
    (∀ text u scale, CompoundUnit.ofText text = .ok (u, scale) →
      ExactlyIf (a.dimension = u.dimension) (a.convertTo text) fun r =>
        r.unit = u ∧ MapsTo a r a.dimension id) ∧
    ∃ r, a.toBase = .ok r ∧ r.unit.factor = .ok 1 ∧ MapsTo a r a.dimension id := by
  refine ⟨⟨CompoundUnit.factor_eq ha.known, fun i => rfl⟩,
    ⟨fun h => add_combines ha hb h, fun h => add_of_ne h⟩,
    ⟨fun h => subtract_combines ha hb h, fun h => subtract_of_ne h⟩,
    multiply_combines ha hb, divide_combines ha hb, negate_mapsTo ha, ?_, ?_, toBase_mapsTo ha.known⟩
  · exact fun u hu hcanonical => convert_exactlyIf ha.known hu hcanonical
  · intro text u scale htext
    obtain ⟨hu, hcanonical⟩ := CompoundUnit.ofText_sound htext
    -- a text is a unit like any other once it has been read; its own scale is dropped
    have hto : a.convertTo text = a.convert u := by
      rw [convertTo, htext]
      rfl
    rw [hto]
    exact convert_exactlyIf ha.known hu hcanonical

/-- A value in the unit that a name stands for. -/
noncomputable def named (v : Value ℝ) (symbol : String) (m : UnitMeaning) : Quantity ℝ :=
  ⟨v, ⟨[⟨symbol, m.toUnit, 1⟩]⟩⟩

theorem sound_named {name : String} {r : ResolvedName} (h : UnitName.resolve? name = some r)
    (hdimensional : r.meaning.dimension.isOne = false) (v : Value ℝ) :
    (named v name r.meaning).Sound := by
  have hknown : (r.meaning.toUnit (R := ℝ)).Known := ⟨name, r, h, rfl⟩
  refine ⟨fun t ht => ?_, CompoundUnit.canonical_single hknown one_ne_zero ?_⟩
  · rw [List.mem_singleton.mp ht]
    exact hknown
  · rw [r.meaning.toUnit_dimension]
    exact hdimensional

/-- Two kilometres and an uncertain number of feet. -/
theorem kilometres_and_feet :
    let kilometre := UnitMeaning.entry (.withPrefix ⟨"kilo", "k", 3⟩
      ⟨"meter", ["m", "metre"], ["meters", "metres"], [(.length, 1)], .exact 1.0, true⟩)
    let foot := UnitMeaning.entry (.base
      ⟨"foot", ["ft"], ["feet"], [(.length, 1)], .exact 0.3048, false⟩)
    let a := named (.scalar 2) "km" kilometre
    let b := named (.sample ⟨1, [2, 5]⟩) "ft" foot
    ∃ r, a.add b = .ok r ∧ Combines a b r a.dimension (· + ·) := by
  intro kilometre foot a b
  have ha : a.Sound := sound_named
    (by decide +kernel : UnitName.resolve? "km" = some ⟨kilometre, none, "km"⟩) (by decide +kernel) _
  have hb : b.Sound := sound_named
    (by decide +kernel : UnitName.resolve? "ft" = some ⟨foot, none, "ft"⟩) (by decide +kernel) _
  exact (arithmetic_in_base_units ha hb).2.1.succeeds rfl

end Quantity

end Ballpark
