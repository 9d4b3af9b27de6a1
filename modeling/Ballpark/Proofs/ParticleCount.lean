import Ballpark.Proofs.Bindings
import Ballpark.Proofs.Outcome
import Ballpark.Proofs.Particle
import Ballpark.Session.Evaluate

/-!
# Numbers of particles

A quantity fits a number of particles if it is exact or has just so many. Whatever is computed from
quantities that fit fits too: a function of each particle keeps the number, and combining values gives
an exact value if all are exact and otherwise as many particles as the others have. So inside a session
no sample is ever repeated to make up for missing particles (`Value.zipWith_of_fits`). There is one
lemma for each operation; those of samplers say that as many particles are drawn as are asked for.
-/

namespace Ballpark

variable {R S : Type}

/-! ## Values -/

/-- A sample that is stretched to its own size stays as it is. -/
theorem Sample.cycle_size (s : Sample R) : s.cycle s.size = s := by
  have hfrom : ∀ xs : List R, s.cycleFrom xs.length xs = xs := by
    intro xs
    induction xs with
    | nil => rfl
    | cons x rest ih => rw [List.length_cons, cycleFrom, ih]
  rw [cycle, size, Nat.add_sub_cancel, hfrom]

namespace Value

variable {T V : Type} {n : Nat}

theorem fits_sample {s : Sample R} (h : s.size = n) : (sample s).Fits n :=
  .inr h

theorem Fits.size_eq {v : Value R} (h : v.Fits n) (huncertain : v.isScalar = false) : v.size = n :=
  h.resolve_left (by rw [huncertain]; exact Bool.false_ne_true)

/-- Values that fit are combined into one that fits: an uncertain one among them sets the size. -/
theorem fits_zipWith (f : R → T → V) {a : Value R} {b : Value T} (ha : a.Fits n) (hb : b.Fits n)
    (hn : 0 < n) : (a.zipWith f b).Fits n := by
  rw [Fits, isScalar_zipWith, size_zipWith]
  rcases hsa : a.isScalar with _ | _
  · exact .inr ((max_eq_left (ha.size_eq hsa ▸ hb.size_le hn)).trans (ha.size_eq hsa))
  · rcases hsb : b.isScalar with _ | _
    · exact .inr ((max_eq_right (hb.size_eq hsb ▸ ha.size_le hn)).trans (hb.size_eq hsb))
    · exact .inl rfl

/-- **No particle is used twice** when uncertain values that fit are combined: each meets the one at its
own place. -/
theorem zipWith_of_fits {s : Sample R} {t : Sample T} (hs : (sample s).Fits n)
    (ht : (sample t).Fits n) (f : R → T → V) :
    (s.zipWith f t).toList = List.zipWith f s.toList t.toList := by
  have hss : s.size = n := hs.size_eq rfl
  have hts : t.size = n := ht.size_eq rfl
  have hmax : max s.size t.size = s.size := by rw [hss, hts, max_self]
  rw [Sample.toList_zipWith, hmax, Sample.cycle_size, hss.trans hts.symm, Sample.cycle_size]

end Value

/-! ## Quantities -/

namespace Quantity

/-- An exact quantity, or one with a given number of particles. -/
def Fits (n : SampleCount) (q : Quantity R) : Prop :=
  q.value.Fits n.size

variable {n : SampleCount} {a b q r : Quantity R}

theorem Fits.zipWith (ha : a.Fits n) (hb : b.Fits n) (f : R → R → R) (u : CompoundUnit R) :
    Fits n ⟨a.value.zipWith f b.value, u⟩ :=
  Value.fits_zipWith f ha hb n.positive

theorem fits_plain (x : R) : (plain x).Fits n :=
  .inl rfl

theorem Fits.map (h : q.Fits n) (f : R → R) (u : CompoundUnit R) : Fits n ⟨q.value.map f, u⟩ :=
  Value.Fits.map h f

variable [Scalar R]

theorem add_fits (ha : a.Fits n) (hb : b.Fits n) (h : a.add b = .ok r) : r.Fits n := by
  obtain ⟨factor, -, h⟩ := ok_of_bind h
  cases h
  exact ha.zipWith hb _ _

theorem subtract_fits (ha : a.Fits n) (hb : b.Fits n) (h : a.subtract b = .ok r) : r.Fits n := by
  obtain ⟨factor, -, h⟩ := ok_of_bind h
  cases h
  exact ha.zipWith hb _ _

theorem compare_fits {c : Comparison} (ha : a.Fits n) (hb : b.Fits n) (h : compare c a b = .ok r) :
    r.Fits n := by
  obtain ⟨factor, -, h⟩ := ok_of_bind h
  cases h
  exact ha.zipWith hb _ _

theorem multiply_fits (ha : a.Fits n) (hb : b.Fits n) (h : a.multiply b = .ok r) : r.Fits n := by
  obtain ⟨unit, -, h⟩ := ok_of_bind h
  cases h
  exact ha.zipWith hb _ _

theorem divide_fits (ha : a.Fits n) (hb : b.Fits n) (h : a.divide b = .ok r) : r.Fits n := by
  obtain ⟨unit, -, h⟩ := ok_of_bind h
  cases h
  exact ha.zipWith hb _ _

theorem pow_fits {k : R} (hq : q.Fits n) (h : q.pow k = .ok r) : r.Fits n := by
  obtain ⟨unit, -, h⟩ := ok_of_bind h
  cases h
  exact hq.map _ _

theorem convert_fits {u : CompoundUnit R} (hq : q.Fits n) (h : q.convert u = .ok r) : r.Fits n := by
  obtain ⟨factor, -, h⟩ := ok_of_bind h
  cases h
  exact hq.map _ _

theorem convertTo_fits {text : String} (hq : q.Fits n) (h : q.convertTo text = .ok r) : r.Fits n := by
  obtain ⟨unit, -, h⟩ := ok_of_bind h
  exact convert_fits hq h

theorem toBase_fits (hq : q.Fits n) (h : q.toBase = .ok r) : r.Fits n := by
  obtain ⟨unit, -, h⟩ := ok_of_bind h
  cases h
  exact hq.map _ _

theorem ofText_fits {v : Value R} {text : String} (hv : v.Fits n.size) (h : ofText v text = .ok r) :
    r.Fits n := by
  obtain ⟨unit, -, h⟩ := ok_of_bind h
  cases h
  exact Value.Fits.map hv _

end Quantity

/-! ## Units and operators in a session -/

namespace Session

variable [Scalar R] {n : SampleCount} {units : Bindings (Quantity R)} {a b q r : Quantity R}

theorem substitute_fits (hunits : units.All (·.Fits n)) (hq : q.Fits n) {t : UnitTerm R}
    (h : substitute units q t = .ok r) : r.Fits n := by
  rw [substitute] at h
  split at h
  · cases h
    exact hq
  · rename_i definition hdefined
    obtain ⟨k, -, h⟩ := ok_of_bind h
    obtain ⟨p, hp, h⟩ := ok_of_bind h
    exact Quantity.multiply_fits hq (Quantity.pow_fits (hunits _ _ hdefined) hp) h

theorem unitQuantity_fits (hunits : units.All (·.Fits n)) {text : String}
    (h : unitQuantity units text = .ok q) : q.Fits n := by
  have hfold : ∀ (ts : List (UnitTerm R)) {p : Quantity R}, p.Fits n →
      ts.foldlM (substitute units) p = .ok q → q.Fits n := by
    intro ts
    induction ts with
    | nil =>
      intro p hp h
      cases h
      exact hp
    | cons t rest ih =>
      intro p hp h
      rw [List.foldlM_cons] at h
      obtain ⟨p', hp', h⟩ := ok_of_bind h
      exact ih (substitute_fits hunits hp hp') h
  obtain ⟨unit, -, h⟩ := ok_of_bind h
  exact hfold _ (.inl rfl) h

theorem inUnit_fits (hunits : units.All (·.Fits n)) (hq : q.Fits n) {unit : Option String}
    (h : inUnit units q unit = .ok r) : r.Fits n := by
  rw [inUnit] at h
  split at h
  · cases h
    exact hq
  · obtain ⟨p, hp, h⟩ := ok_of_bind h
    exact Quantity.multiply_fits hq (unitQuantity_fits hunits hp) h

theorem literal_fits (hunits : units.All (·.Fits n)) {x : R} {unit : Option String}
    (h : literal units x unit = .ok r) : r.Fits n := by
  rw [literal] at h
  split at h
  · cases h
    exact Quantity.fits_plain x
  · obtain ⟨p, hp, h⟩ := ok_of_bind h
    cases h
    exact (unitQuantity_fits hunits hp).map _ _

theorem convertTo_fits (hunits : units.All (·.Fits n)) (hq : q.Fits n) {target : String}
    (h : convertTo units q target = .ok r) : r.Fits n := by
  simp only [convertTo] at h
  split at h
  · exact Quantity.toBase_fits hq h
  split at h
  · rename_i definition hdefined
    obtain ⟨p, hp, h⟩ := ok_of_bind h
    obtain ⟨ratio, hratio, h⟩ := ok_of_bind h
    obtain ⟨label, -, h⟩ := ok_of_bind h
    cases h
    exact (Quantity.divide_fits (Quantity.convert_fits hq hp) (hunits _ _ hdefined) hratio :)
  · exact Quantity.convertTo_fits hq h

theorem unitOf_fits {name : String} {count : R} (hq : q.Fits n) (h : unitOf name count q = .ok r) :
    r.Fits n := by
  rw [unitOf] at h
  split at h
  · cases h
  split at h
  · cases h
    exact hq
  · exact Quantity.divide_fits hq (Quantity.fits_plain count) h

theorem binary_fits (op : BinaryOperator) (ha : a.Fits n) (hb : b.Fits n)
    (h : binary op a b = .ok r) : r.Fits n := by
  cases op with
  | add => exact Quantity.add_fits ha hb h
  | subtract => exact Quantity.subtract_fits ha hb h
  | multiply => exact Quantity.multiply_fits ha hb h
  | divide => exact Quantity.divide_fits ha hb h
  | compare c => exact Quantity.compare_fits ha hb h
  | power =>
    rw [binary] at h
    split at h
    · cases h
    split at h
    · cases h
    · exact Quantity.pow_fits ha h
  | other => cases h

theorem unary_fits (op : UnaryOperator) (hq : q.Fits n) (h : unary op q = .ok r) : r.Fits n := by
  cases op with
  | negate =>
    cases h
    exact hq.map _ _
  | plus =>
    cases h
    exact hq
  | other => cases h

/-- A choice between branches has as many particles as the condition. -/
theorem choose_fits {s : Sample R} (hs : s.size = n.size) (ha : a.Fits n) (hb : b.Fits n)
    (h : choose s a b = .ok r) : r.Fits n := by
  rw [choose] at h
  split at h
  · cases h
  · obtain ⟨no, hno, h⟩ := ok_of_bind h
    cases h
    refine .inr ((Sample.size_zipWith3 _ s _ _).trans ?_)
    have hyes : a.value.particles.size ≤ s.size := hs ▸ Value.Fits.size_le ha n.positive
    have hother : no.value.particles.size ≤ s.size := 
      hs ▸ Value.Fits.size_le (Quantity.convert_fits hb hno) n.positive
    rw [max_eq_left (max_le hyes hother), hs]

end Session

/-! ## Builtin functions of quantities -/

namespace MathFunction

variable [Scalar R] {n : SampleCount}

/-- An operation whose results fit if its arguments do. -/
def Preserves (n : SampleCount) : Operation R → Prop
  | .unary f => ∀ a r, a.Fits n → f a = .ok r → r.Fits n
  | .binary f => ∀ a b r, a.Fits n → b.Fits n → f a b = .ok r → r.Fits n
  | .ternary f => ∀ a b c r, a.Fits n → b.Fits n → c.Fits n → f a b c = .ok r → r.Fits n

variable {a b c r : Quantity R}

theorem inUnitOfFirst_fits {function : String} {f : R → R → R} (ha : a.Fits n) (hb : b.Fits n)
    (h : inUnitOfFirst function f a b = .ok r) : r.Fits n := by
  obtain ⟨_, -, h⟩ := ok_of_bind h
  obtain ⟨p, hp, h⟩ := ok_of_bind h
  cases h
  exact ha.zipWith (Quantity.convert_fits hb hp) _ _

theorem raise_fits (ha : a.Fits n) (hb : b.Fits n) (h : raise a b = .ok r) : r.Fits n := by
  obtain ⟨_, -, h⟩ := ok_of_bind h
  have hexponent : b.value.Fits n.size := hb
  split at h
  · exact Quantity.pow_fits ha h
  · rename_i k hk
    cases h
    rw [hk] at hexponent
    exact Value.fits_zipWith _ ha hexponent n.positive

theorem between_fits (ha : a.Fits n) (hb : b.Fits n) (hc : c.Fits n) (h : between a b c = .ok r) :
    r.Fits n := by
  obtain ⟨_, -, h⟩ := ok_of_bind h
  obtain ⟨_, -, h⟩ := ok_of_bind h
  obtain ⟨low, hlow, h⟩ := ok_of_bind h
  obtain ⟨high, hhigh, h⟩ := ok_of_bind h
  cases h
  exact Value.fits_zipWith3 _ ha (Quantity.convert_fits hb hlow) (Quantity.convert_fits hc hhigh)
    n.positive

theorem inRadians_fits {function : String} (ha : a.Fits n) (h : inRadians function a = .ok r) :
    r.Fits n := by
  rw [inRadians] at h
  split at h
  · cases h
    exact ha
  split at h
  · exact Quantity.convert_fits ha h
  · cases h

/-- A score has a particle for each particle of the observation. -/
theorem score_fits {scale : Score.Scale} {part : Score.Part} (hb : b.Fits n)
    (h : Score.evaluate scale part a b = .ok r) : r.Fits n := by
  obtain ⟨c, hc, h⟩ := ok_of_bind h
  -- the particles of the forecast are only measured against: the score has those of the observation
  have hreliability : c.reliability.Fits n.size := by
    rw [Score.components] at hc
    split at hc
    · cases hc
    · obtain ⟨observed, hobserved, hc⟩ := ok_of_bind hc
      obtain ⟨x, -, hc⟩ := ok_of_bind hc
      obtain ⟨y, hy, hc⟩ := ok_of_bind hc
      cases hc
      -- its transform, if it has one, goes particle by particle
      have hvalue : observed.value.Fits n.size := Quantity.convert_fits hb hobserved
      have hyfits : y.Fits n.size := by
        rw [Score.Scale.transform.eq_def] at hy
        split at hy
        · cases hy
          exact hvalue
        · split at hy
          · cases hy
          · cases hy
            exact hvalue.map _
      exact hyfits.map _
  cases part with
  | score =>
    cases h
    exact hreliability.map _
  | reliability =>
    cases h
    exact hreliability
  | resolution =>
    cases h
    exact .inl rfl

/-- **Every function of quantities** keeps the number of particles, or gives an exact quantity. -/
theorem operation_preserves (f : MathFunction) : Preserves n (f.operation : Operation R) := by
  cases f with
  | keepingUnit | sign =>
    intro a r ha h
    cases h
    exact ha.map _ _
  | ofPlain | toAngle =>
    intro a r ha h
    obtain ⟨_, -, h⟩ := ok_of_bind h
    cases h
    exact ha.map _ _
  | ofAngle =>
    intro a r ha h
    obtain ⟨p, hp, h⟩ := ok_of_bind h
    cases h
    exact (inRadians_fits ha hp).map _ _
  | squareRoot => exact fun a r ha h => Quantity.pow_fits ha h
  | cubeRoot =>
    intro a r ha h
    obtain ⟨unit, -, h⟩ := ok_of_bind h
    cases h
    exact ha.map _ _
  | power => exact fun a b r ha hb h => raise_fits ha hb h
  | minimum | maximum | hypotenuse => exact fun a b r ha hb h => inUnitOfFirst_fits ha hb h
  | pointAngle =>
    intro a b r ha hb h
    obtain ⟨p, hp, h⟩ := ok_of_bind h
    cases h
    exact (inUnitOfFirst_fits ha hb hp :)
  | clamp => exact fun a b c r ha hb hc h => between_fits ha hb hc h
  | quantile =>
    intro a b r _ _ h
    simp only [Summary.quantile] at h
    split at h
    · obtain ⟨x, -, h⟩ := ok_of_bind h
      cases h
      exact .inl rfl
    · cases h
  | fixedQuantile | mean | deviation =>
    intro a r _ h
    cases h
    exact .inl rfl
  | score => exact fun a b r _ hb h => score_fits hb h

omit [Scalar R] in
theorem Preserves.call {f : Operation R} (hf : Preserves n f) {arguments : List (Quantity R)}
    (harguments : ∀ q ∈ arguments, q.Fits n) {e : Except (Fault R) (Quantity R)}
    (he : f.call? arguments = some e) (h : e = .ok r) : r.Fits n := by
  rw [Operation.call?.eq_def] at he
  split at he
  · cases he
    exact hf _ _ (harguments _ (by simp)) h
  · cases he
    exact hf _ _ _ (harguments _ (by simp)) (harguments _ (by simp)) h
  · cases he
    exact hf _ _ _ _ (harguments _ (by simp)) (harguments _ (by simp)) (harguments _ (by simp)) h
  · cases he

end MathFunction

end Ballpark
