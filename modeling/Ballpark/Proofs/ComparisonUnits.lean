import Ballpark.Proofs.Particle
import Ballpark.Proofs.RangeScale

/-!
# Comparisons from either side

A comparison converts its second operand into the unit of the first, so swapping the sides compares the
same numbers in another unit. For comparisons by order that makes no difference. Equality allows for a
tolerance, the same number in every unit, so what it comes to in base units is the tolerance times the
size of the first unit (`Quantity.holds_iff`): from the other side it is another distance. The two sides
agree on a pair of particles exactly if the difference of the pair is within both distances or within
neither (`Quantity.compare_mirror`).
-/

namespace Ballpark

open Session

/-- The comparison that holds of two numbers from the other side. -/
def Comparison.mirror : Comparison → Comparison
  | greater => less
  | less => greater
  | greaterEqual => lessEqual
  | lessEqual => greaterEqual
  | equal => equal
  | unequal => unequal

/-- A value is its shape and its particles. -/
theorem Value.ext_particle {R : Type} {v w : Value R} (hscalar : v.isScalar = w.isScalar)
    (hsize : v.size = w.size) (h : ∀ i < v.size, v.particle i = w.particle i) : v = w := by
  rcases v with x | s <;> rcases w with y | t
  · have hzero := h 0 Nat.zero_lt_one
    rw [particle_scalar, particle_scalar] at hzero
    rw [hzero]
  · cases hscalar
  · cases hscalar
  · exact congrArg sample (Sample.ext_particle hsize h)

namespace Quantity

/-- The two sides of a comparison agree on two numbers exactly if it is one by order, or its tolerance
does not tell the numbers apart in one of the units alone. -/
theorem relates_mirror_iff (c : Comparison) (s t x y : ℝ) :
    (Relates c s x y ↔ Relates c.mirror t y x) ↔
      (c = .equal ∨ c = .unequal → (|x - y| < toleranceIn s ↔ |x - y| < toleranceIn t)) := by
  cases c with
  | greater | less | greaterEqual | lessEqual => simp [Relates, Comparison.mirror]
  | equal => simp [Relates, Comparison.mirror, abs_sub_comm y x]
  | unequal =>
    simp only [Relates, Comparison.mirror, abs_sub_comm y x, or_true, forall_true_left, ← not_lt]
    exact not_iff_not

theorem indicator_eq_iff {rel rel' : ℝ → ℝ → Prop} {x y x' y' : ℝ} :
    indicator rel x y = indicator rel' x' y' ↔ (rel x y ↔ rel' x' y') := by
  by_cases hrel : rel x y <;> by_cases hrel' : rel' x' y' <;> simp [indicator, hrel, hrel']

/-- **A comparison tests numbers in base units**, one pair of particles after another. -/
theorem compare_spec {a b : Quantity ℝ} (ha : a.unit.Positive) (hb : b.unit.Positive)
    (h : a.dimension = b.dimension) (c : Comparison) :
    ∃ r, compare c a b = .ok r ∧ r.unit = .one ∧ r.isScalar = (a.isScalar && b.isScalar) ∧
      r.size = Max.max a.size b.size ∧ ∀ i < Max.max a.size b.size,
        r.value.particle i = indicator (Relates c a.unit.size) (a.inBase i) (b.inBase i) := by
  refine ⟨_, compare_eq ha hb h c, rfl, Value.isScalar_zipWith _ _ _, Value.size_zipWith _ _ _,
    fun i hi => ?_⟩
  classical
  rw [Value.particle_zipWith _ _ _ hi, ofBool_real, indicator]
  exact if_congr (holds_iff c ha.size_pos) rfl rfl

/-- **Comparisons from the other side.** Two quantities of one dimension, exact or of any numbers of
particles, in units of sizes above zero, and the same comparison mirrored, from the other side. Both
results exist and have the same shape. A comparison by order gives the same result from both sides. An
equality or its opposite gives the same for a pair of particles exactly if their difference is within the
tolerance in the units of both operands or in neither; so it gives the same result wherever the two units
have the same size. -/
theorem compare_mirror {a b : Quantity ℝ} (ha : a.unit.Positive) (hb : b.unit.Positive)
    (h : a.dimension = b.dimension) (c : Comparison) :
    ∃ p r, compare c a b = .ok p ∧ compare c.mirror b a = .ok r ∧ p.unit = .one ∧ r.unit = .one ∧
      p.isScalar = r.isScalar ∧ p.size = r.size ∧
      (∀ i < p.size, p.value.particle i = r.value.particle i ↔
        (c = .equal ∨ c = .unequal →
          (|a.inBase i - b.inBase i| < (equalityTolerance : ℝ) * a.unit.size ↔
            |a.inBase i - b.inBase i| < (equalityTolerance : ℝ) * b.unit.size))) ∧
      (¬(c = .equal ∨ c = .unequal) ∨ a.unit.size = b.unit.size → p = r) := by
  obtain ⟨p, hp, hpone, hpscalar, hpsize, hpparticle⟩ := compare_spec ha hb h c
  obtain ⟨r, hr, hrone, hrscalar, hrsize, hrparticle⟩ := compare_spec hb ha h.symm c.mirror
  have hscalar : p.isScalar = r.isScalar := by rw [hpscalar, hrscalar, Bool.and_comm]
  have hsize : p.size = r.size := by rw [hpsize, hrsize, max_comm]
  have hparticles : ∀ i < p.size, p.value.particle i = r.value.particle i ↔
      (c = .equal ∨ c = .unequal →
        (|a.inBase i - b.inBase i| < toleranceIn a.unit.size ↔
          |a.inBase i - b.inBase i| < toleranceIn b.unit.size)) := by
    intro i hi
    rw [hpparticle i (hpsize ▸ hi), hrparticle i (hrsize ▸ hsize ▸ hi), indicator_eq_iff]
    exact relates_mirror_iff c _ _ _ _
  refine ⟨p, r, hp, hr, hpone, hrone, hscalar, hsize, hparticles, fun hsame => ?_⟩
  have hvalue : p.value = r.value := by
    -- the particles differ at most for an equality, and then the two sizes are the same
    refine Value.ext_particle hscalar hsize fun i hi => (hparticles i hi).mpr fun hequality => ?_
    rcases hsame with horder | hunits
    · exact absurd hequality horder
    · rw [hunits]
  rcases p with ⟨v, u⟩
  rcases r with ⟨w, t⟩
  obtain rfl : v = w := hvalue
  rw [show u = t from hpone.trans hrone.symm]

/-! ## Nothing and a billionth of a metre -/

/-- Fewer kilometres than metres from the one side are more metres than kilometres from the other. -/
theorem kilometres_and_metres :
    let a : Quantity ℝ := ⟨.sample ⟨1, [2, 3]⟩, kilometres⟩
    let b : Quantity ℝ := ⟨.sample ⟨1500, [2500]⟩, metres⟩
    ∃ p, compare .less a b = .ok p ∧ compare .greater b a = .ok p := by
  intro a b
  have hkilometres := (scaleFree_kilometres.sound (.scalar 1)).known
  have hmetres := (scaleFree_metres.sound (.scalar 1)).known
  obtain ⟨p, r, hp, hr, -, -, -, -, -, hsame⟩ :=
    compare_mirror (a := a) (b := b) hkilometres.positive hmetres.positive rfl .less
  obtain rfl := hsame (.inl (by decide))
  exact ⟨p, hp, hr⟩

/-- No kilometres are a billionth of a metre, but a billionth of a metre is not zero kilometres: the
tolerance is one of kilometres on the one side and of metres on the other. -/
theorem nothing_and_a_billionth_of_a_metre :
    let a : Quantity ℝ := ⟨.scalar 0, kilometres⟩
    let b : Quantity ℝ := ⟨.scalar 1e-9, metres⟩
    a.Sound ∧ b.Sound ∧ a.dimension = b.dimension ∧
      ∃ p r, compare .equal a b = .ok p ∧ compare .equal b a = .ok r ∧
        p.value.particle 0 = 1 ∧ r.value.particle 0 = 0 := by
  intro a b
  have ha : a.Sound := scaleFree_kilometres.sound _
  have hb : b.Sound := scaleFree_metres.sound _
  have hmetre : metres.size = 1 := by
    rw [metres, CompoundUnit.size_cons, CompoundUnit.size_nil]
    norm_num [metre, UnitMeaning.toUnit, VocabularyEntry.toUnit, Size.toScalar]
  have hkilometre : kilometres.size = 1000 := by
    rw [← metres_per_kilometre, hmetre, div_one]
  obtain ⟨p, hp, -, -, -, hpparticle⟩ :=
    compare_spec (a := a) (b := b) ha.known.positive hb.known.positive rfl .equal
  obtain ⟨r, hr, -, -, -, hrparticle⟩ :=
    compare_spec (a := b) (b := a) hb.known.positive ha.known.positive rfl .equal
  have hain : a.inBase 0 = 0 := by simp [a, inBase_mk]
  have hbin : b.inBase 0 = 1e-9 := by simp [b, inBase_mk, hmetre]
  refine ⟨ha, hb, rfl, p, r, hp, hr, ?_, ?_⟩
  · rw [hpparticle 0 (by decide), hain, hbin]
    norm_num [indicator, Relates, toleranceIn, equalityTolerance, a, hkilometre]
  · rw [hrparticle 0 (by decide), hain, hbin]
    norm_num [indicator, Relates, toleranceIn, equalityTolerance, b, hmetre]

end Quantity

end Ballpark
