import Ballpark.Proofs.QuantityArithmetic
import Ballpark.Session.Evaluate

/-!
# Single particles

An exact quantity can stand for one particle of an uncertain one: it has the same dimension, and in
base units it is that particle (`Quantity.IsParticle`). The operations of programs respect this. They
act on what quantities stand for, place by place (`Quantity.ActsOn`, `Quantity.ActsOnBoth`), so the
particle of a result is the result of the particles, and whether an operation succeeds at all depends on
dimensions alone, which particles share with the whole (`Quantity.ActsOn.particle`,
`Quantity.ActsOnBoth.particle`).
-/

namespace Ballpark

namespace Quantity

/-- The exact quantity `p` stands for the `i`-th of `n` particles of `q`; an exact quantity has the same
particle everywhere. -/
structure IsParticle (n i : Nat) (q p : Quantity ℝ) : Prop where
  whole : q.Sound
  part : p.Sound
  isScalar : p.isScalar = true
  shape : q.isScalar = true ∨ q.size = n
  dimension : p.dimension = q.dimension
  inBase : p.inBase 0 = q.inBase i

variable {n i : Nat}

theorem inBase_of_isScalar {q : Quantity ℝ} (h : q.isScalar = true) (i : Nat) :
    q.inBase i = q.inBase 0 := by
  obtain ⟨v, u⟩ := q
  cases v with
  | scalar x => simp [inBase_mk]
  | sample s => cases h

theorem size_of_isScalar {R : Type} {q : Quantity R} (h : q.isScalar = true) : q.size = 1 :=
  Value.size_of_isScalar h

/-- An exact quantity stands for each of its own particles. -/
theorem IsParticle.of_isScalar {q : Quantity ℝ} (hsound : q.Sound) (h : q.isScalar = true) :
    IsParticle n i q q :=
  ⟨hsound, hsound, h, .inl h, rfl, (inBase_of_isScalar h i).symm⟩

/-- The particle of a quantity as an exact quantity in the same unit. -/
def atParticle {R : Type} (i : Nat) (q : Quantity R) : Quantity R :=
  ⟨.scalar (q.value.particle i), q.unit⟩

theorem isParticle_atParticle {q : Quantity ℝ} (hsound : q.Sound)
    (hshape : q.isScalar = true ∨ q.size = n) : IsParticle n i q (q.atParticle i) :=
  ⟨hsound, ⟨hsound.known, hsound.canonical⟩, rfl, hshape, rfl, by
    rw [atParticle, inBase_mk, Value.particle_scalar, inBase]⟩

/-! ## Operations with one operand -/

/-- On quantities of some dimensions an operation succeeds, and it acts on what they stand for. -/
def ActsOn (op : Quantity ℝ → Except (Fault ℝ) (Quantity ℝ)) (condition : Dimension → Prop)
    (dimension : Dimension → Dimension) (f : ℝ → ℝ) : Prop :=
  ∀ q : Quantity ℝ, q.Sound →
    ExactlyIf (condition q.dimension) (op q) (MapsTo q · (dimension q.dimension) f)

theorem ExactlyIf.condition {c : Prop} {e : Except (Fault ℝ) (Quantity ℝ)} {P : Quantity ℝ → Prop}
    (h : ExactlyIf c e P) {r : Quantity ℝ} (hr : e = .ok r) : c ∧ P r := by
  by_cases hc : c
  · obtain ⟨r', hr', hP⟩ := h.succeeds hc
    rw [hr] at hr'
    cases hr'
    exact ⟨hc, hP⟩
  · obtain ⟨clash, hclash⟩ := h.fails hc
    rw [hr] at hclash
    cases hclash

theorem ExactlyIf.of_succeeds {e : Except (Fault ℝ) (Quantity ℝ)} {P : Quantity ℝ → Prop}
    (h : ∃ r, e = .ok r ∧ P r) : ExactlyIf True e P :=
  ⟨fun _ => h, fun hfalse => absurd True.intro hfalse⟩

/-- **The particle of a result is the result of the particle.** -/
theorem ActsOn.particle {op : Quantity ℝ → Except (Fault ℝ) (Quantity ℝ)} {c : Dimension → Prop}
    {d : Dimension → Dimension} {f : ℝ → ℝ} (hop : ActsOn op c d f) {q p r : Quantity ℝ}
    (h : IsParticle n i q p) (hr : op q = .ok r) :
    ∃ z, op p = .ok z ∧ IsParticle n i r z := by
  obtain ⟨hc, hmaps⟩ := (hop q h.whole).condition hr
  obtain ⟨z, hz, hmaps'⟩ := (hop p h.part).succeeds (h.dimension ▸ hc)
  refine ⟨z, hz, hmaps.sound, hmaps'.sound, hmaps'.isScalar.trans h.isScalar, ?_, ?_, ?_⟩
  · rw [hmaps.isScalar, hmaps.size]
    exact h.shape
  · rw [hmaps.dimension, hmaps'.dimension, h.dimension]
  · rw [hmaps.inBase, hmaps'.inBase, h.inBase]

theorem actsOn_negate : ActsOn (fun q => .ok q.negate) (fun _ => True) id (- ·) :=
  fun _ hq => .of_succeeds ⟨_, rfl, negate_mapsTo hq⟩

theorem actsOn_toBase : ActsOn toBase (fun _ => True) id id :=
  fun _ hq => .of_succeeds <| by
    obtain ⟨r, hr, -, hmaps⟩ := toBase_mapsTo hq.known
    exact ⟨r, hr, hmaps⟩

theorem actsOn_convert {u : CompoundUnit ℝ} (hu : u.Known) (hcanonical : u.Canonical) :
    ActsOn (·.convert u) (· = u.dimension) id id := by
  intro q hq
  obtain ⟨hsucceeds, hfails⟩ := convert_exactlyIf hq.known hu hcanonical
  refine ⟨fun h => ?_, hfails⟩
  obtain ⟨r, hr, -, hmaps⟩ := hsucceeds h
  exact ⟨r, hr, hmaps⟩

/-- Powers with a whole exponent. -/
theorem actsOn_pow (k : Int) :
    ActsOn (·.pow (k : ℝ)) (fun _ => True) (·.pow k) (· ^ k) := by
  intro q hq
  have hsnap : Exponent.snap (k : Rat) = k := by
    simp [Exponent.snap, Exponent.limitDenominator, Exponent.maxDenominator]
  obtain ⟨w, hw, hmakes⟩ := CompoundUnit.pow_spec hq.known hq.canonical (k : Rat)
  rw [hsnap] at hmakes
  have hcast : (((k : Int) : Rat) : ℝ) = (k : ℝ) := by push_cast; rfl
  have hsize := hmakes.size
  rw [one_mul, hcast, Real.rpow_intCast] at hsize
  rw [hcast] at hw
  refine .of_succeeds ⟨⟨q.value.map (Scalar.pow · (k : ℝ)), w⟩, ?_,
    ⟨hmakes.known, hmakes.canonical⟩, hmakes.dimension, Value.isScalar_map _ _, Value.size_map _ _,
    fun j => ?_⟩
  · simp only [pow, hw]
    rfl
  · rw [inBase_mk, Value.particle_map, hsize, Scalar.pow_real, Real.rpow_intCast, inBase, mul_zpow]

theorem actsOn_abs :
    ActsOn (fun q => .ok (q.map (Scalar.apply .abs))) (fun _ => True) id (|·|) := by
  refine fun q hq => .of_succeeds ⟨_, rfl, ⟨hq.known, hq.canonical⟩, rfl, Value.isScalar_map _ _,
    Value.size_map _ _, fun j => ?_⟩
  rw [map, inBase_mk, Value.particle_map, inBase, abs_mul, abs_of_pos hq.known.size_pos]
  rfl

/-! ## Operations with two operands -/

/-- On quantities of some dimensions an operation succeeds, and it acts on what they stand for, place by
place. -/
def ActsOnBoth (op : Quantity ℝ → Quantity ℝ → Except (Fault ℝ) (Quantity ℝ))
    (condition : Dimension → Dimension → Prop) (dimension : Dimension → Dimension → Dimension)
    (f : ℝ → ℝ → ℝ) : Prop :=
  ∀ a b : Quantity ℝ, a.Sound → b.Sound →
    ExactlyIf (condition a.dimension b.dimension) (op a b)
      (Combines a b · (dimension a.dimension b.dimension) f)

/-- The places at which a combination is what it is made of: all that the particles are counted by. -/
theorem Combines.inBase_of_lt {a b r : Quantity ℝ} {d : Dimension} {f : ℝ → ℝ → ℝ}
    (h : Combines a b r d f) (hi : i < n) (ha : a.isScalar = true ∨ a.size = n)
    (hb : b.isScalar = true ∨ b.size = n) : r.inBase i = f (a.inBase i) (b.inBase i) := by
  rcases ha with ha | ha
  · rcases hb with hb | hb
    · -- both are exact, so the result is, and one place stands for all
      have hr : r.isScalar = true := by rw [h.isScalar, ha, hb]; rfl
      have hzero : 0 < Max.max a.size b.size := lt_of_lt_of_le a.value.size_pos (le_max_left _ _)
      rw [inBase_of_isScalar hr, inBase_of_isScalar ha, inBase_of_isScalar hb, h.inBase 0 hzero]
    · exact h.inBase i (lt_of_lt_of_le (hb ▸ hi) (le_max_right _ _))
  · exact h.inBase i (lt_of_lt_of_le (ha ▸ hi) (le_max_left _ _))

theorem Combines.shape {a b r : Quantity ℝ} {d : Dimension} {f : ℝ → ℝ → ℝ}
    (h : Combines a b r d f) (hn : 0 < n) (ha : a.isScalar = true ∨ a.size = n)
    (hb : b.isScalar = true ∨ b.size = n) : r.isScalar = true ∨ r.size = n := by
  rcases ha with ha | ha
  · rcases hb with hb | hb
    · exact .inl (by rw [h.isScalar, ha, hb]; rfl)
    · exact .inr (by rw [h.size, size_of_isScalar ha, hb, max_eq_right hn])
  · rcases hb with hb | hb
    · exact .inr (by rw [h.size, size_of_isScalar hb, ha, max_eq_left hn])
    · exact .inr (by rw [h.size, ha, hb, max_self])

/-- **The particle of a combination is the combination of the particles.** -/
theorem ActsOnBoth.particle {op : Quantity ℝ → Quantity ℝ → Except (Fault ℝ) (Quantity ℝ)}
    {c : Dimension → Dimension → Prop} {d : Dimension → Dimension → Dimension} {f : ℝ → ℝ → ℝ}
    (hop : ActsOnBoth op c d f) (hi : i < n) {a b x y r : Quantity ℝ} (ha : IsParticle n i a x)
    (hb : IsParticle n i b y) (hr : op a b = .ok r) :
    ∃ z, op x y = .ok z ∧ IsParticle n i r z := by
  obtain ⟨hc, hcombines⟩ := (hop a b ha.whole hb.whole).condition hr
  rw [← ha.dimension, ← hb.dimension] at hc
  obtain ⟨z, hz, hcombines'⟩ := (hop x y ha.part hb.part).succeeds hc
  have hexact : z.isScalar = true := by rw [hcombines'.isScalar, ha.isScalar, hb.isScalar]; rfl
  refine ⟨z, hz, hcombines.sound, hcombines'.sound, hexact,
    hcombines.shape (Nat.zero_lt_of_lt hi) ha.shape hb.shape, ?_, ?_⟩
  · rw [hcombines.dimension, hcombines'.dimension, ha.dimension, hb.dimension]
  · rw [hcombines.inBase_of_lt hi ha.shape hb.shape,
      hcombines'.inBase_of_lt Nat.zero_lt_one (.inl ha.isScalar) (.inl hb.isScalar), ha.inBase,
      hb.inBase]

theorem actsOnBoth_add : ActsOnBoth add (· = ·) (fun d _ => d) (· + ·) :=
  fun _ _ ha hb => ⟨fun h => add_combines ha hb h, fun h => add_of_ne h⟩

theorem actsOnBoth_subtract : ActsOnBoth subtract (· = ·) (fun d _ => d) (· - ·) :=
  fun _ _ ha hb => ⟨fun h => subtract_combines ha hb h, fun h => subtract_of_ne h⟩

theorem actsOnBoth_multiply :
    ActsOnBoth multiply (fun _ _ => True) Dimension.multiply (· * ·) :=
  fun _ _ ha hb => .of_succeeds (multiply_combines ha hb)

theorem actsOnBoth_divide : ActsOnBoth divide (fun _ _ => True) Dimension.divide (· / ·) :=
  fun _ _ ha hb => .of_succeeds (divide_combines ha hb)

/-- How far apart numbers in base units may be that compare as equal in a unit of a given size. -/
noncomputable def toleranceIn (size : ℝ) : ℝ :=
  (equalityTolerance : ℝ) * size

/-- What a comparison tests of two numbers in base units, if the first is in a unit of a given size. -/
def Relates (c : Comparison) (size x y : ℝ) : Prop :=
  match c with
  | .greater => y < x
  | .less => x < y
  | .greaterEqual => y ≤ x
  | .lessEqual => x ≤ y
  | .equal => |x - y| < toleranceIn size
  | .unequal => toleranceIn size ≤ |x - y|

/-- A comparison in the unit of the first number, which has the size `s`. -/
theorem holds_iff (c : Comparison) {x y s t : ℝ} (hs : 0 < s) :
    holds c x (y * (t / s)) = true ↔ Relates c s (x * s) (y * t) := by
  have hy : y * (t / s) = y * t / s := by ring
  have hdistance : |x * s - y * t| = |x - y * t / s| * s := by
    rw [← abs_of_pos hs, ← abs_mul, abs_of_pos hs, sub_mul, div_mul_cancel₀ _ hs.ne']
  cases c with
  | greater => simp only [holds, Relates, Scalar.lt_real, decide_eq_true_eq, hy, div_lt_iff₀ hs]
  | less => simp only [holds, Relates, Scalar.lt_real, decide_eq_true_eq, hy, lt_div_iff₀ hs]
  | greaterEqual => simp only [holds, Relates, Scalar.le_real, decide_eq_true_eq, hy, div_le_iff₀ hs]
  | lessEqual => simp only [holds, Relates, Scalar.le_real, decide_eq_true_eq, hy, le_div_iff₀ hs]
  | equal =>
    simp only [holds, Relates, toleranceIn, Scalar.lt_real, Scalar.ofRat_real, decide_eq_true_eq, hy,
      hdistance, mul_lt_mul_iff_of_pos_right hs]
    rfl
  | unequal =>
    simp only [holds, Relates, toleranceIn, Scalar.le_real, Scalar.ofRat_real, decide_eq_true_eq, hy,
      hdistance, mul_le_mul_iff_of_pos_right hs]
    rfl

/-- The comparisons by order; the other two allow for a tolerance, which knows the unit. -/
def orders : Comparison → Option (ℝ → ℝ → Prop)
  | .greater => some fun x y => y < x
  | .less => some (· < ·)
  | .greaterEqual => some fun x y => y ≤ x
  | .lessEqual => some (· ≤ ·)
  | .equal | .unequal => none

theorem relates_iff_of_orders {c : Comparison} {rel : ℝ → ℝ → Prop} (hc : orders c = some rel)
    (size x y : ℝ) : Relates c size x y ↔ rel x y := by
  cases c with
  | greater | less | greaterEqual | lessEqual =>
    cases hc
    exact Iff.rfl
  | equal | unequal => cases hc

open Classical in
/-- One where a relation holds, zero elsewhere. -/
noncomputable def indicator (rel : ℝ → ℝ → Prop) (x y : ℝ) : ℝ :=
  if rel x y then 1 else 0

theorem ofBool_real (p : Bool) : (Scalar.ofBool p : ℝ) = if p = true then 1 else 0 := by
  cases p <;> simp [Scalar.ofBool]

/-- A comparison by order does not depend on the unit that both numbers are in. -/
theorem ofBool_holds {c : Comparison} {rel : ℝ → ℝ → Prop} (hc : orders c = some rel) {x y s t : ℝ}
    (hs : 0 < s) : (Scalar.ofBool (holds c x (y * (t / s))) : ℝ) = indicator rel (x * s) (y * t) := by
  have hrel : holds c x (y * (t / s)) = true ↔ rel (x * s) (y * t) :=
    (holds_iff c hs).trans (relates_iff_of_orders hc _ _ _)
  classical
  rw [ofBool_real, indicator]
  exact if_congr hrel rfl rfl

theorem compare_eq {a b : Quantity ℝ} (ha : a.unit.Positive) (hb : b.unit.Positive)
    (h : a.dimension = b.dimension) (c : Comparison) :
    compare c a b = .ok ⟨a.value.zipWith (fun x y =>
      Scalar.ofBool (holds c x (y * (b.unit.size / a.unit.size)))) b.value, .one⟩ := by
  rw [compare, commonFactor_of_positive ha hb h]
  rfl

theorem actsOnBoth_compare {c : Comparison} {rel : ℝ → ℝ → Prop} (hc : orders c = some rel) :
    ActsOnBoth (compare c) (· = ·) (fun _ _ => Dimension.one) (indicator rel) := by
  intro a b ha hb
  refine ⟨fun h => ⟨_, compare_eq ha.known.positive hb.known.positive h c,
    ⟨CompoundUnit.known_one, CompoundUnit.canonical_one⟩, rfl, Value.isScalar_zipWith _ _ _,
    Value.size_zipWith _ _ _, fun i hi => ?_⟩, fun h => ?_⟩
  · rw [inBase_mk, Value.particle_zipWith _ _ _ hi, CompoundUnit.size_one, mul_one,
      ofBool_holds hc ha.known.size_pos]
    rfl
  · obtain ⟨clash, hclash⟩ := commonFactor_of_ne "compare" h
    refine ⟨clash, ?_⟩
    rw [compare, hclash]
    rfl

theorem requireSame_eq {function : String} {a b : Quantity ℝ} (h : a.dimension = b.dimension) :
    MathFunction.requireSame function a b = .ok ⟨⟩ := by
  have hsame : a.unit.sameDimension b.unit = true := CompoundUnit.sameDimension_iff.mpr h
  rw [MathFunction.requireSame, hsame]
  rfl

theorem requireSame_of_ne (function : String) {a b : Quantity ℝ} (h : a.dimension ≠ b.dimension) :
    ∃ clash, MathFunction.requireSame function a b = .error (.units clash) := by
  have hdiffer : a.unit.sameDimension b.unit = false := by
    rw [← Bool.not_eq_true, CompoundUnit.sameDimension_iff]
    exact h
  rw [MathFunction.requireSame, hdiffer]
  exact ⟨_, rfl⟩

/-- A function that commutes with positive factors combines what its operands stand for. -/
theorem actsOnBoth_inUnitOfFirst {f : ℝ → ℝ → ℝ}
    (hf : ∀ x y s : ℝ, 0 < s → f (x * s) (y * s) = f x y * s)
    (function : String) :
    ActsOnBoth (MathFunction.inUnitOfFirst function f) (· = ·) (fun d _ => d) f := by
  intro a b ha hb
  refine ⟨fun h => ?_, fun h => ?_⟩
  · have hpos := ha.known.size_pos
    refine ⟨⟨a.value.zipWith f (b.value.map (· * (b.unit.size / a.unit.size))), a.unit⟩, ?_,
      ⟨ha.known, ha.canonical⟩, rfl, ?_, ?_, fun i hi => ?_⟩
    · rw [MathFunction.inUnitOfFirst, requireSame_eq h, convert_eq hb.known ha.known h.symm]
      rfl
    · rw [isScalar_eq, Value.isScalar_zipWith, Value.isScalar_map]
      rfl
    · rw [size_eq, Value.size_zipWith, Value.size_map]
      rfl
    · -- the factor between the units cancels, since the function commutes with it
      have hi' : i < Max.max a.value.size (b.value.map (· * (b.unit.size / a.unit.size))).size := by
        rw [Value.size_map]
        exact hi
      rw [inBase_mk, Value.particle_zipWith _ _ _ hi', Value.particle_map, ← hf _ _ _ hpos, inBase,
        inBase, mul_assoc, div_mul_cancel₀ _ hpos.ne']
  · obtain ⟨clash, hclash⟩ := requireSame_of_ne function h
    refine ⟨clash, ?_⟩
    rw [MathFunction.inUnitOfFirst, hclash]
    rfl

theorem actsOnBoth_minimum :
    ActsOnBoth (MathFunction.inUnitOfFirst "min" Scalar.minimum) (· = ·) (fun d _ => d)
      Scalar.minimum :=
  actsOnBoth_inUnitOfFirst (fun x y s hs => by
    rw [Scalar.minimum_real, Scalar.minimum_real, min_mul_of_nonneg _ _ hs.le]) _

theorem actsOnBoth_maximum :
    ActsOnBoth (MathFunction.inUnitOfFirst "max" Scalar.maximum) (· = ·) (fun d _ => d)
      Scalar.maximum :=
  actsOnBoth_inUnitOfFirst (fun x y s hs => by
    rw [Scalar.maximum_real, Scalar.maximum_real, max_mul_of_nonneg _ _ hs.le]) _

/-! ## Operations with three operands -/

end Quantity

namespace Value

variable {R T V W : Type} {n i : Nat}

/-- An exact value, or one of `n` particles. -/
def Fits (n : Nat) (v : Value R) : Prop :=
  v.isScalar = true ∨ v.size = n

theorem Fits.size_le {v : Value R} (h : v.Fits n) (hn : 0 < n) : v.size ≤ n := by
  rcases h with h | h
  · rw [size_of_isScalar h]
    exact hn
  · exact h.le

theorem Fits.map {v : Value R} (h : v.Fits n) (f : R → T) : (v.map f).Fits n := by
  rw [Fits, isScalar_map, size_map]
  exact h

theorem particle_zipWith_of_fits (f : R → T → V) {a : Value R} {b : Value T} (ha : a.Fits n)
    (hb : b.Fits n) (hi : i < n) : (a.zipWith f b).particle i = f (a.particle i) (b.particle i) := by
  rcases ha with ha | ha
  · rcases hb with hb | hb
    · rcases a with x | s <;> rcases b with y | t
      · simp [zipWith]
      all_goals simp [isScalar] at ha hb
    · exact particle_zipWith f a b (by omega)
  · exact particle_zipWith f a b (by omega)

theorem particle_zipWith3_of_fits (f : R → T → V → W) {a : Value R} {b : Value T} {c : Value V}
    (ha : a.Fits n) (hb : b.Fits n) (hc : c.Fits n) (hi : i < n) :
    (a.zipWith3 f b c).particle i = f (a.particle i) (b.particle i) (c.particle i) := by
  rcases ha with ha | ha
  · rcases hb with hb | hb
    · rcases hc with hc | hc
      · rcases a with x | s <;> rcases b with y | t <;> rcases c with z | u
        · simp [zipWith3]
        all_goals simp [isScalar] at ha hb hc
      · exact particle_zipWith3 f a b c (by omega)
    · exact particle_zipWith3 f a b c (by omega)
  · exact particle_zipWith3 f a b c (by omega)

theorem fits_zipWith3 (f : R → T → V → W) {a : Value R} {b : Value T} {c : Value V}
    (ha : a.Fits n) (hb : b.Fits n) (hc : c.Fits n) (hn : 0 < n) : (a.zipWith3 f b c).Fits n := by
  have hsizes := And.intro (ha.size_le hn) (And.intro (hb.size_le hn) (hc.size_le hn))
  rw [Fits, isScalar_zipWith3, size_zipWith3]
  rcases ha with ha | ha
  · rcases hb with hb | hb
    · rcases hc with hc | hc
      · exact .inl (by rw [ha, hb, hc]; rfl)
      · exact .inr (by omega)
    · exact .inr (by omega)
  · exact .inr (by omega)

end Value

namespace Quantity

variable {n i : Nat}

theorem sameDimension_of_requireSame {function : String} {a b : Quantity ℝ}
    (h : MathFunction.requireSame function a b = .ok ⟨⟩) : a.dimension = b.dimension := by
  by_contra hne
  obtain ⟨clash, hclash⟩ := requireSame_of_ne function hne
  rw [h] at hclash
  cases hclash

/-- A number between two bounds, the upper one first: a lower bound above it wins. -/
theorem between_eq {q low high : Quantity ℝ} (hq : q.Sound) (hlow : low.Sound) (hhigh : high.Sound)
    (h₁ : q.dimension = low.dimension) (h₂ : q.dimension = high.dimension) :
    MathFunction.between q low high = .ok ⟨q.value.zipWith3
      (fun x low high => Scalar.maximum low (Scalar.minimum high x))
      (low.value.map (· * (low.unit.size / q.unit.size)))
      (high.value.map (· * (high.unit.size / q.unit.size))), q.unit⟩ := by
  rw [MathFunction.between, requireSame_eq h₁, requireSame_eq h₂,
    convert_eq hlow.known hq.known h₁.symm, convert_eq hhigh.known hq.known h₂.symm]
  rfl

theorem between_of_ok {q low high r : Quantity ℝ} (h : MathFunction.between q low high = .ok r) :
    q.dimension = low.dimension ∧ q.dimension = high.dimension := by
  rw [MathFunction.between] at h
  rcases hlow : MathFunction.requireSame "clamp" q low with e | _
  · rw [hlow] at h
    cases h
  rcases hhigh : MathFunction.requireSame "clamp" q high with e | _
  · rw [hlow, hhigh] at h
    cases h
  · exact ⟨sameDimension_of_requireSame hlow, sameDimension_of_requireSame hhigh⟩

theorem inBase_between {q low high : Quantity ℝ} (hq : q.Sound) (hi : i < n) (fits : q.value.Fits n)
    (hlow : low.value.Fits n) (hhigh : high.value.Fits n) :
    inBase ⟨q.value.zipWith3 (fun x low high => Scalar.maximum low (Scalar.minimum high x))
      (low.value.map (· * (low.unit.size / q.unit.size)))
      (high.value.map (· * (high.unit.size / q.unit.size))), q.unit⟩ i =
      Max.max (low.inBase i) (Min.min (high.inBase i) (q.inBase i)) := by
  have hpos := hq.known.size_pos
  rw [inBase_mk, Value.particle_zipWith3_of_fits _ fits (hlow.map _) (hhigh.map _) hi,
    Scalar.maximum_real, Scalar.minimum_real, Value.particle_map, Value.particle_map,
    max_mul_of_nonneg _ _ hpos.le, min_mul_of_nonneg _ _ hpos.le, mul_assoc,
    div_mul_cancel₀ _ hpos.ne', mul_assoc, div_mul_cancel₀ _ hpos.ne']
  rfl

theorem IsParticle.fits {q p : Quantity ℝ} (h : IsParticle n i q p) : q.value.Fits n :=
  h.shape

/-- The particle of a clamped number is the clamped particle. -/
theorem between_particle (hi : i < n) {q low high x y z r : Quantity ℝ} (hq : IsParticle n i q x)
    (hlow : IsParticle n i low y) (hhigh : IsParticle n i high z)
    (hr : MathFunction.between q low high = .ok r) :
    ∃ w, MathFunction.between x y z = .ok w ∧ IsParticle n i r w := by
  obtain ⟨h₁, h₂⟩ := between_of_ok hr
  rw [between_eq hq.whole hlow.whole hhigh.whole h₁ h₂] at hr
  cases hr
  have h₁' : x.dimension = y.dimension := by rw [hq.dimension, hlow.dimension, h₁]
  have h₂' : x.dimension = z.dimension := by rw [hq.dimension, hhigh.dimension, h₂]
  refine ⟨_, between_eq hq.part hlow.part hhigh.part h₁' h₂', ⟨hq.whole.known, hq.whole.canonical⟩,
    ⟨hq.part.known, hq.part.canonical⟩, ?_, ?_, hq.dimension, ?_⟩
  · rw [isScalar_eq, Value.isScalar_zipWith3, Value.isScalar_map, Value.isScalar_map, ← isScalar_eq,
      ← isScalar_eq, ← isScalar_eq, hq.isScalar, hlow.isScalar, hhigh.isScalar]
    rfl
  · exact Value.fits_zipWith3 _ hq.fits (hlow.fits.map _) (hhigh.fits.map _) (Nat.zero_lt_of_lt hi)
  · rw [inBase_between hq.part Nat.zero_lt_one (.inl hq.isScalar) (.inl hlow.isScalar)
      (.inl hhigh.isScalar), inBase_between hq.whole hi hq.fits hlow.fits hhigh.fits, hq.inBase,
      hlow.inBase, hhigh.inBase]

/-- The branch that a condition picks. -/
noncomputable def pick (c x y : ℝ) : ℝ :=
  if Session.isTrue c then x else y

theorem choose_eq {condition : Sample ℝ} {yes no : Quantity ℝ} (hyes : yes.Sound) (hno : no.Sound)
    (h : yes.dimension = no.dimension) :
    Session.choose condition yes no = .ok ⟨(Value.sample condition).zipWith3 pick yes.value
      (no.value.map (· * (no.unit.size / yes.unit.size))), yes.unit⟩ := by
  have hsame : yes.unit.sameDimension no.unit = true := CompoundUnit.sameDimension_iff.mpr h
  rw [Session.choose, hsame, convert_eq hno.known hyes.known h.symm]
  rfl

theorem choose_of_ok {condition : Sample ℝ} {yes no r : Quantity ℝ}
    (h : Session.choose condition yes no = .ok r) : yes.dimension = no.dimension := by
  by_contra hne
  have hdiffer : yes.unit.sameDimension no.unit = false := by
    rw [← Bool.not_eq_true, CompoundUnit.sameDimension_iff]
    exact hne
  rw [Session.choose, hdiffer] at h
  cases h

theorem inBase_choose {condition : Sample ℝ} {yes no : Quantity ℝ} (hyes : yes.Sound) (hi : i < n)
    (hcondition : condition.size = n) (fits : yes.value.Fits n) (hno : no.value.Fits n) :
    inBase ⟨(Value.sample condition).zipWith3 pick yes.value
      (no.value.map (· * (no.unit.size / yes.unit.size))), yes.unit⟩ i =
      if Session.isTrue (condition.particle i) then yes.inBase i else no.inBase i := by
  have hpos := hyes.known.size_pos
  have hfits : (Value.sample condition).Fits n := .inr hcondition
  rw [inBase_mk, Value.particle_zipWith3_of_fits _ hfits fits (hno.map _) hi, Value.particle_map,
    pick]
  have hparticle : (Value.sample condition).particle i = condition.particle i := rfl
  rw [hparticle]
  split
  · rfl
  · rw [mul_assoc, div_mul_cancel₀ _ hpos.ne']
    rfl

/-- Where the condition is uncertain, each particle comes from the branch that its condition picks. -/
theorem choose_particle (hi : i < n) {condition : Sample ℝ} (hcondition : condition.size = n)
    {yes no x y r : Quantity ℝ} (hyes : IsParticle n i yes x) (hno : IsParticle n i no y)
    (hr : Session.choose condition yes no = .ok r) :
    IsParticle n i r (if Session.isTrue (condition.particle i) then x else y) := by
  have hsame := choose_of_ok hr
  rw [choose_eq hyes.whole hno.whole hsame] at hr
  cases hr
  have hinBase := inBase_choose hyes.whole hi hcondition hyes.fits hno.fits
  have hfits := Value.fits_zipWith3 pick (a := .sample condition) (.inr hcondition) hyes.fits
    (hno.fits.map (· * (no.unit.size / yes.unit.size))) (Nat.zero_lt_of_lt hi)
  by_cases htrue : Session.isTrue (condition.particle i) = true
  · rw [if_pos htrue] at hinBase ⊢
    exact ⟨⟨hyes.whole.known, hyes.whole.canonical⟩, hyes.part, hyes.isScalar, hfits,
      hyes.dimension, hyes.inBase.trans hinBase.symm⟩
  · rw [if_neg htrue] at hinBase ⊢
    exact ⟨⟨hyes.whole.known, hyes.whole.canonical⟩, hno.part, hno.isScalar, hfits,
      hno.dimension.trans hsame.symm, hno.inBase.trans hinBase.symm⟩

end Quantity

end Ballpark
