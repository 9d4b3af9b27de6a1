import Ballpark.Proofs.RangeScale
import Ballpark.Proofs.Snapping

/-!
# Powers in other units

A power takes its exponent in two ways: the particles are raised to the number as it is, the unit to the
fraction that the number snaps to (`Quantity.pow_raised`). A change of the unit beforehand takes the
quotient of the two sizes out of the particles and puts it into the unit, so the two powers differ by
that quotient raised to what snapping has added to the number (`Quantity.pow_converted`). They are the
same for fractions with a small denominator, and for no other number unless the units have one size
(`Quantity.pow_after_convert`).

The scale that the canonical form of a power sets free is thrown away. Units in canonical form set none
free; for a product that is not in canonical form the scale is part of the law.
-/

namespace Ballpark

open Exponent Session

namespace CompoundUnit

theorem Canonical.coherent {u : CompoundUnit ℝ} (h : u.Canonical) (hpos : u.Positive) :
    Coherent u.terms where
  positive := hpos
  dimension_eq s hs t ht hbase := by
    rw [List.inj_on_of_nodup_map h.distinct hs ht hbase]

/-- Changing the powers of factors keeps them coherent. -/
theorem Coherent.mapPower {ts : List (UnitTerm ℝ)} (h : Coherent ts) (f : Rat → Rat) :
    Coherent (ts.map fun t => { t with power := f t.power }) where
  positive t ht := by
    obtain ⟨s, hs, rfl⟩ := List.mem_map.mp ht
    exact h.positive s hs
  dimension_eq s hs t ht hbase := by
    obtain ⟨s', hs', rfl⟩ := List.mem_map.mp hs
    obtain ⟨t', ht', rfl⟩ := List.mem_map.mp ht
    exact h.dimension_eq s' hs' t' ht' hbase

/-- A unit raised to a fraction: its canonical form, which is smaller than the power by the scale that
is set free. -/
structure Raised (u : CompoundUnit ℝ) (r : Rat) (w : CompoundUnit ℝ) (scale : ℝ) : Prop where
  canonicalize : canonicalize (u.terms.map fun t => { t with power := t.power * r }) = .ok (w, scale)
  scale_pos : 0 < scale
  dimension : w.dimension = u.dimension.pow r
  size : scale * w.size = u.size ^ (r : ℝ)

/-- Units in canonical form set no scale free. -/
theorem Raised.scale_eq_one {u w : CompoundUnit ℝ} {r : Rat} {scale : ℝ} (h : Raised u r w scale)
    (hcanonical : u.Canonical) : scale = 1 := by
  obtain ⟨w', hw'⟩ := canonicalize_scaled hcanonical r
  have heq : (w, scale) = (w', Scalar.ofNat 1) := Except.ok.inj (h.canonicalize.symm.trans hw')
  have hscale : scale = Scalar.ofNat 1 := congrArg Prod.snd heq
  rw [hscale, Scalar.ofNat_real, Nat.cast_one]

/-- **Powers of units** are powers by the fraction that the exponent snaps to. -/
theorem Coherent.pow_raised {u : CompoundUnit ℝ} (h : Coherent u.terms) (k : Rat) :
    ∃ w scale, u.pow (k : ℝ) = .ok w ∧ Raised u (snap k) w scale := by
  obtain ⟨w, scale, hw, hspec⟩ := (h.mapPower (· * snap k)).canonicalize
  have hraised : Raised u (snap k) w scale := by
    refine ⟨hw, hspec.scale_pos, ?_, ?_⟩
    · rw [hspec.dimension]
      refine Dimension.ext_power (normal_dimension _) (u.normal_dimension.pow _) fun x => ?_
      rw [power_dimension_scaled, Dimension.power_pow]
    · rw [hspec.size]
      exact h.positive.size_scaled (snap k)
  rcases hempty : u.terms.isEmpty with _ | _
  · refine ⟨w, scale, ?_, hraised⟩
    simp only [pow, hempty, Scalar.isFinite_real, Exponent.ofScalar_ratCast, bind, Except.bind, hw]
    rfl
  · -- the unit of plain numbers is given back as it is
    obtain ⟨ts⟩ := u
    obtain rfl : ts = [] := List.isEmpty_iff.mp hempty
    obtain ⟨rfl, -⟩ : w = one ∧ scale = Scalar.ofNat 1 :=
      Prod.mk.inj (Except.ok.inj (hw.symm.trans (canonicalize_canonical canonical_one)))
    exact ⟨one, scale, rfl, hraised⟩

end CompoundUnit

namespace Quantity

/-- A quantity raised to a number: its particles to the number itself, its unit to what it snaps to. -/
structure RaisedTo (k : Rat) (q p : Quantity ℝ) (scale : ℝ) : Prop where
  unit : CompoundUnit.Raised q.unit (snap k) p.unit scale
  value : p.value = q.value.map (Scalar.pow · (k : ℝ))

namespace RaisedTo

variable {k : Rat} {q p : Quantity ℝ} {scale : ℝ}

theorem dimension (h : RaisedTo k q p scale) : p.dimension = q.dimension.pow (snap k) :=
  h.unit.dimension

theorem isScalar (h : RaisedTo k q p scale) : p.isScalar = q.isScalar := by
  rw [isScalar_eq, h.value, Value.isScalar_map]
  rfl

theorem size (h : RaisedTo k q p scale) : p.size = q.size := by
  rw [size_eq, h.value, Value.size_map]
  rfl

/-- **The two readings of the exponent**, side by side. -/
theorem inBase_mul (h : RaisedTo k q p scale) (i : Nat) :
    p.inBase i * scale = q.value.particle i ^ (k : ℝ) * q.unit.size ^ (snap k : ℝ) := by
  rw [inBase, h.value, Value.particle_map, Scalar.pow_real, mul_assoc, mul_comm p.unit.size,
    h.unit.size]

end RaisedTo

theorem pow_raisedTo {q : Quantity ℝ} (h : CompoundUnit.Coherent q.unit.terms) (k : Rat) :
    ∃ p scale, q.pow (k : ℝ) = .ok p ∧ RaisedTo k q p scale := by
  obtain ⟨w, scale, hw, hraised⟩ := h.pow_raised k
  refine ⟨⟨q.value.map (Scalar.pow · (k : ℝ)), w⟩, scale, ?_, hraised, rfl⟩
  simp only [pow, hw]
  rfl

/-! ## Before and after a change of the unit -/

/-- A quotient of sizes goes from the particles into the unit. -/
theorem pow_mul_pow {x f g : ℝ} (hx : 0 < x) (hf : 0 < f) (hg : 0 < g) (k r : ℝ) :
    (x * (f / g)) ^ k * g ^ r = x ^ k * f ^ r * (g / f) ^ (r - k) := by
  have hfr := (Real.rpow_pos_of_pos hf r).ne'
  have hfk := (Real.rpow_pos_of_pos hf k).ne'
  have hgk := (Real.rpow_pos_of_pos hg k).ne'
  rw [Real.mul_rpow hx.le (div_pos hf hg).le, Real.div_rpow hf.le hg.le, Real.div_rpow hg.le hf.le,
    Real.rpow_sub hg, Real.rpow_sub hf]
  field_simp

/-- A power of a positive number is one only if the exponent is zero or the number is one. -/
theorem rpow_eq_one_iff {x y : ℝ} (hx : 0 < x) : x ^ y = 1 ↔ y = 0 ∨ x = 1 := by
  by_cases hone : x = 1
  · simp [hone]
  · rw [← Real.rpow_zero x, Real.rpow_right_inj hx hone]
    simp [hone]

/-- What a change of the unit before a power comes to: the quotient of the sizes to the power of what
snapping adds to the exponent. -/
noncomputable def snapFactor (q : Quantity ℝ) (u : CompoundUnit ℝ) (k : Rat) : ℝ :=
  (u.size / q.unit.size) ^ ((snap k - k : Rat) : ℝ)

theorem snapFactor_eq_one_iff {q : Quantity ℝ} {u : CompoundUnit ℝ} (hq : q.unit.Positive)
    (hu : u.Positive) {k : Rat} :
    q.snapFactor u k = 1 ↔ k.den ≤ maxDenominator ∨ u.size = q.unit.size := by
  have hdifference : ((snap k - k : Rat) : ℝ) = 0 ↔ k.den ≤ maxDenominator := by
    rw [Rat.cast_eq_zero, sub_eq_zero, snap_eq_self_iff]
  rw [snapFactor, rpow_eq_one_iff (div_pos hu.size_pos hq.size_pos), hdifference,
    div_eq_one_iff_eq hq.size_pos.ne']

/-- A power and the power after a change of the unit: of one dimension and one shape, their particles in
base units apart by a factor, and by the scale that the new unit sets free. -/
structure PowersApart (q : Quantity ℝ) (u : CompoundUnit ℝ) (k : Rat) (direct after : Quantity ℝ)
    (scale : ℝ) : Prop where
  dimension : after.dimension = direct.dimension
  isScalar : after.isScalar = direct.isScalar
  size : after.size = direct.size
  positive : ∀ i, 0 < direct.inBase i
  unit : CompoundUnit.Raised u (snap k) after.unit scale
  inBase : ∀ i, after.inBase i * scale = direct.inBase i * q.snapFactor u k

/-- Both powers exist, and how far they are apart. -/
theorem pow_converted {q : Quantity ℝ} {u : CompoundUnit ℝ} (hpositive : q.unit.Positive)
    (hcanonical : q.unit.Canonical) (hu : CompoundUnit.Coherent u.terms)
    (hdimension : q.dimension = u.dimension) (hparticles : ∀ i, 0 < q.value.particle i) (k : Rat) :
    ∃ converted direct after scale, q.convert u = .ok converted ∧ q.pow (k : ℝ) = .ok direct ∧
      converted.pow (k : ℝ) = .ok after ∧ PowersApart q u k direct after scale := by
  let converted : Quantity ℝ := ⟨q.value.map (· * (q.unit.size / u.size)), u⟩
  have hconvert : q.convert u = .ok converted := convert_of_positive hpositive hu.positive hdimension
  obtain ⟨direct, one, hdirect, hq⟩ := pow_raisedTo (hcanonical.coherent hpositive) k
  obtain ⟨after, scale, hafter, hc⟩ := pow_raisedTo (q := converted) hu k
  obtain rfl := hq.unit.scale_eq_one hcanonical
  -- no scale comes with the power of the canonical unit
  have hin : ∀ i, direct.inBase i = q.value.particle i ^ (k : ℝ) * q.unit.size ^ (snap k : ℝ) :=
    fun i => by rw [← hq.inBase_mul i, mul_one]
  have hparticle : ∀ i, converted.value.particle i =
      q.value.particle i * (q.unit.size / u.size) := fun i => Value.particle_map _ _ i
  refine ⟨converted, direct, after, scale, hconvert, hdirect, hafter, ?_, ?_, ?_, fun i => ?_, hc.unit,
    fun i => ?_⟩
  · rw [hc.dimension, hq.dimension, hdimension]
    rfl
  · rw [hc.isScalar, hq.isScalar]
    exact Value.isScalar_map _ _
  · rw [hc.size, hq.size]
    exact Value.size_map _ _
  · rw [hin]
    exact mul_pos (Real.rpow_pos_of_pos (hparticles i) _)
      (Real.rpow_pos_of_pos hpositive.size_pos _)
  · rw [hc.inBase_mul, hparticle, hin, snapFactor, Rat.cast_sub]
    exact pow_mul_pow (hparticles i) hpositive.size_pos hu.positive.size_pos _ _

/-- **Powers in another unit.** A quantity of positive particles with a canonical unit, and another unit
of its dimension, factors under one key being of one dimension. The power by a fraction `k` exists before
and after the change of the unit, with the same dimension and the same number of particles. The unit is
raised to the nearest fraction with a denominator of at most one thousand, and so the particles of both
powers in base units are apart by the quotient of the two sizes to the power of what that fraction is
more than `k`, and by the scale that the canonical form of the new unit's power sets free, none if it is
canonical itself. So with a canonical unit both powers are the same exactly if the denominator of `k`
is at most one thousand, or the units have one size. -/
theorem pow_after_convert {q : Quantity ℝ} {u : CompoundUnit ℝ} (hpositive : q.unit.Positive)
    (hcanonical : q.unit.Canonical) (hu : CompoundUnit.Coherent u.terms)
    (hdimension : q.dimension = u.dimension) (hparticles : ∀ i, 0 < q.value.particle i) (k : Rat) :
    ∃ converted direct after scale, q.convert u = .ok converted ∧ q.pow (k : ℝ) = .ok direct ∧
      converted.pow (k : ℝ) = .ok after ∧
      after.dimension = direct.dimension ∧ after.isScalar = direct.isScalar ∧
      after.size = direct.size ∧
      (∀ i, after.inBase i * scale =
        direct.inBase i * (u.size / q.unit.size) ^ ((snap k - k : Rat) : ℝ)) ∧
      CompoundUnit.canonicalize (u.terms.map fun t => { t with power := t.power * snap k }) =
        .ok (after.unit, scale) ∧
      ((snap k).den ≤ 1000 ∧ ∀ y : Rat, y.den ≤ 1000 → |snap k - k| ≤ |y - k|) ∧
      (u.Canonical → scale = 1 ∧ ((∀ i, after.inBase i = direct.inBase i) ↔
        k.den ≤ 1000 ∨ u.size = q.unit.size)) := by
  obtain ⟨converted, direct, after, scale, hconvert, hdirect, hafter, h⟩ :=
    pow_converted hpositive hcanonical hu hdimension hparticles k
  refine ⟨converted, direct, after, scale, hconvert, hdirect, hafter, h.dimension, h.isScalar, h.size,
    h.inBase, h.unit.canonicalize, ⟨snap_den_le k, fun y hy => snap_nearest k hy⟩, fun hcanon => ?_⟩
  -- a canonical unit sets no scale free, so only the snapped exponent can make a difference
  have hone := h.unit.scale_eq_one hcanon
  have hfactor : (∀ i, after.inBase i = direct.inBase i) ↔ q.snapFactor u k = 1 := by
    have hin : ∀ i, after.inBase i = direct.inBase i * q.snapFactor u k := fun i => by
      rw [← h.inBase i, hone, mul_one]
    constructor
    · -- the particles are positive, so one of them already gives the factor away
      intro hsame
      have hzero := (hin 0).symm.trans (hsame 0)
      exact (mul_eq_left₀ (h.positive 0).ne').mp hzero
    · intro hsame i
      rw [hin, hsame, mul_one]
  exact ⟨hone, hfactor.trans (snapFactor_eq_one_iff hpositive hu.positive)⟩

/-! ## Kilometres and metres -/

/-- The root of kilometres is the same as that of metres. -/
theorem kilometres_root :
    let q : Quantity ℝ := ⟨.sample ⟨1, [4]⟩, kilometres⟩
    ∃ converted direct after, q.convert metres = .ok converted ∧
      q.pow ((1 / 2 : Rat) : ℝ) = .ok direct ∧ converted.pow ((1 / 2 : Rat) : ℝ) = .ok after ∧
      ∀ i, after.inBase i = direct.inBase i := by
  intro q
  have hkilometres := scaleFree_kilometres.sound (.scalar 1)
  have hmetres := scaleFree_metres.sound (.scalar 1)
  have hparticles : ∀ i, 0 < q.value.particle i := by
    intro i
    change 0 < (⟨1, [4]⟩ : Sample ℝ).particle i
    rcases List.mem_pair.mp (Sample.particle_mem (⟨1, [4]⟩ : Sample ℝ) i) with hone | hfour
    · rw [hone]
      exact one_pos
    · rw [hfour]
      exact four_pos
  obtain ⟨converted, direct, after, scale, hconvert, hdirect, hafter, -, -, -, -, -, -, hsame⟩ :=
    pow_after_convert (q := q) hkilometres.known.positive hkilometres.canonical hmetres.known.coherent
      rfl hparticles (1 / 2)
  exact ⟨converted, direct, after, hconvert, hdirect, hafter,
    (hsame hmetres.canonical).2.mpr (.inl (by decide +kernel))⟩

/-- One kilometre and one thousand metres to the power of one part in 4096, which snaps to zero. -/
theorem kilometre_to_a_small_power :
    let q : Quantity ℝ := ⟨.scalar 1, kilometres⟩
    q.Sound ∧ (∀ i, 0 < q.value.particle i) ∧ metres.Known ∧ metres.Canonical ∧
      q.dimension = metres.dimension ∧
      ∃ converted direct after, q.convert metres = .ok converted ∧
        q.pow ((1 / 4096 : Rat) : ℝ) = .ok direct ∧ converted.pow ((1 / 4096 : Rat) : ℝ) = .ok after ∧
        after.inBase 0 ≠ direct.inBase 0 := by
  intro q
  have hkilometres : q.Sound := scaleFree_kilometres.sound _
  have hmetres := scaleFree_metres.sound (.scalar 1)
  have hparticles : ∀ i, 0 < q.value.particle i := by
    intro i
    change 0 < (Value.scalar (1 : ℝ)).particle i
    rw [Value.particle_scalar]
    exact one_pos
  obtain ⟨converted, direct, after, scale, hconvert, hdirect, hafter, h⟩ :=
    pow_converted hkilometres.known.positive hkilometres.canonical hmetres.known.coherent rfl
      hparticles (1 / 4096)
  refine ⟨hkilometres, hparticles, hmetres.known, hmetres.canonical, rfl, converted, direct, after,
    hconvert, hdirect, hafter, fun hsame => ?_⟩
  have hin := h.inBase 0
  rw [h.unit.scale_eq_one hmetres.canonical, mul_one, hsame] at hin
  have hfactor := (mul_eq_left₀ (h.positive 0).ne').mp hin.symm
  rcases (snapFactor_eq_one_iff hkilometres.known.positive hmetres.known.positive).mp hfactor with
    hden | hsize
  · -- the denominator is too large for a snapped exponent, and the sizes are a thousand apart
    exact absurd hden (by decide +kernel)
  · have hratio := metres_per_kilometre
    rw [hsize, div_self hkilometres.known.size_pos.ne'] at hratio
    norm_num at hratio

end Quantity

end Ballpark
