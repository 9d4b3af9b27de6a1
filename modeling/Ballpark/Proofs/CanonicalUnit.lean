import Ballpark.Proofs.UnitSize

/-!
# Canonical form

Bringing a product into canonical form never fails and loses nothing, as long as sizes are above zero
and units under one key measure the same (`CompoundUnit.Coherent`), which known factors always do: the
size of the canonical unit times the scale that is set free is the size of the product, and the
dimension stays. What a merge has taken in is the invariant `Merging.Holds`; one lemma says what one
more factor does to it, and the rest is induction over the factors.

In canonical form no power is zero, no factor is a plain number, keys are different, positive powers
come first, and a unit of plain numbers has no factors at all (`CompoundUnit.Canonical`). Such a unit
can be raised to any power without setting a scale free (`CompoundUnit.pow_spec`).
-/

namespace Ballpark

namespace CompoundUnit

variable {R : Type}

/-- Units in canonical form. -/
structure Canonical (u : CompoundUnit R) : Prop where
  nonzero : ∀ t ∈ u.terms, t.power ≠ 0
  dimensional : ∀ t ∈ u.terms, t.unit.dimension.isOne = false
  distinct : (u.terms.map (·.unit.base)).Nodup
  positiveFirst : u.terms.Pairwise fun s t => s.power < 0 → t.power < 0
  plain : u.isPlain = true → u.terms = []

theorem canonical_one : (one : CompoundUnit R).Canonical :=
  ⟨by simp [one], by simp [one], by simp [one], by simp [one], fun _ => rfl⟩

/-! ## Positive powers first -/

/-- What does not depend on the order of factors, and not on those with the power zero, is kept. -/
theorem power_dimension_ordered (ts : List (UnitTerm R)) (x : Dimension.Axis) :
    (CompoundUnit.dimension ⟨ordered ts⟩).power x = (CompoundUnit.dimension ⟨ts⟩).power x := by
  induction ts with
  | nil => simp [ordered]
  | cons t rest ih =>
    rw [ordered, power_dimension_append] at ih
    rw [ordered, List.filter_cons, List.filter_cons, power_dimension_append, power_dimension_cons]
    rcases lt_trichotomy t.power 0 with hneg | hzero | hpos
    · rw [if_neg (by simpa using hneg.le), if_pos (by simpa using hneg), power_dimension_cons, ← ih]
      ring
    · rw [if_neg (by simp [hzero]), if_neg (by simp [hzero]), ih, hzero, mul_zero, zero_add]
    · rw [if_pos (by simpa using hpos), if_neg (by simpa using hpos.le), power_dimension_cons, ← ih]
      ring

theorem size_ordered (ts : List (UnitTerm ℝ)) : size ⟨ordered ts⟩ = size ⟨ts⟩ := by
  induction ts with
  | nil => simp [ordered]
  | cons t rest ih =>
    rw [ordered, size_append] at ih
    rw [ordered, List.filter_cons, List.filter_cons, size_append, size_cons]
    rcases lt_trichotomy t.power 0 with hneg | hzero | hpos
    · rw [if_neg (by simpa using hneg.le), if_pos (by simpa using hneg), size_cons, ← ih]
      ring
    · rw [if_neg (by simp [hzero]), if_neg (by simp [hzero]), ih, hzero, Rat.cast_zero,
        Real.rpow_zero, one_mul]
    · rw [if_pos (by simpa using hpos), if_neg (by simpa using hpos.le), size_cons, ← ih]
      ring

theorem mem_ordered {ts : List (UnitTerm R)} {t : UnitTerm R} :
    t ∈ ordered ts ↔ t ∈ ts ∧ t.power ≠ 0 := by
  simp only [ordered, List.mem_append, List.mem_filter, decide_eq_true_eq]
  constructor
  · rintro (⟨h, hpos⟩ | ⟨h, hneg⟩)
    · exact ⟨h, hpos.ne'⟩
    · exact ⟨h, hneg.ne⟩
  · rintro ⟨h, hne⟩
    rcases lt_or_gt_of_ne hne with hneg | hpos
    · exact .inr ⟨h, hneg⟩
    · exact .inl ⟨h, hpos⟩

/-- Dropping the power zero beforehand changes nothing. -/
theorem ordered_filter (ts : List (UnitTerm R)) : ordered (ts.filter (·.power ≠ 0)) = ordered ts := by
  simp only [ordered, List.filter_filter]
  congr 1
  · refine List.filter_congr fun t _ => ?_
    by_cases hpos : 0 < t.power
    · simp [hpos, hpos.ne']
    · simp [hpos]
  · refine List.filter_congr fun t _ => ?_
    by_cases hneg : t.power < 0
    · simp [hneg, hneg.ne]
    · simp [hneg]

theorem positiveFirst_ordered (ts : List (UnitTerm R)) :
    (ordered ts).Pairwise fun s t => s.power < 0 → t.power < 0 := by
  refine List.pairwise_append.mpr ⟨?_, ?_, ?_⟩
  · refine List.pairwise_of_forall_mem_list fun s hs _ _ hneg => ?_
    have hpos := of_decide_eq_true (List.mem_filter.mp hs).2
    exact absurd hneg hpos.le.not_gt
  · exact List.pairwise_of_forall_mem_list fun _ _ _ ht _ =>
      of_decide_eq_true (List.mem_filter.mp ht).2
  · exact fun _ _ _ ht _ => of_decide_eq_true (List.mem_filter.mp ht).2

theorem distinct_ordered {ts : List (UnitTerm R)} (h : (ts.map (·.unit.base)).Nodup) :
    ((ordered ts).map (·.unit.base)).Nodup := by
  rw [ordered, List.map_append]
  refine List.nodup_append.mpr ⟨h.sublist (List.filter_sublist.map _),
    h.sublist (List.filter_sublist.map _), ?_⟩
  rintro key hpos key' hneg rfl
  obtain ⟨s, hs, hskey⟩ := List.mem_map.mp hpos
  obtain ⟨t, ht, htkey⟩ := List.mem_map.mp hneg
  -- one factor under the key would have a positive and a negative power
  have hst : s = t := List.inj_on_of_nodup_map h (List.mem_filter.mp hs).1 (List.mem_filter.mp ht).1
    (hskey.trans htkey.symm)
  have h1 := of_decide_eq_true (List.mem_filter.mp hs).2
  have h2 := of_decide_eq_true (List.mem_filter.mp ht).2
  rw [hst] at h1
  exact absurd h1 h2.le.not_gt

/-- Factors with different keys that are no plain numbers are in canonical form once they are in
order, unless they cancel. -/
theorem canonical_ordered {ts : List (UnitTerm R)}
    (hdimensional : ∀ t ∈ ts, t.unit.dimension.isOne = false)
    (hdistinct : (ts.map (·.unit.base)).Nodup)
    (hplain : (⟨ordered ts⟩ : CompoundUnit R).isPlain = true → ordered ts = []) :
    (⟨ordered ts⟩ : CompoundUnit R).Canonical where
  nonzero _ ht := (mem_ordered.mp ht).2
  dimensional t ht := hdimensional t (mem_ordered.mp ht).1
  distinct := distinct_ordered hdistinct
  positiveFirst := positiveFirst_ordered ts
  plain := hplain

/-- A canonical unit is in order already. -/
theorem Canonical.ordered {u : CompoundUnit R} (h : u.Canonical) :
    CompoundUnit.ordered u.terms = u.terms := by
  obtain ⟨ts⟩ := u
  have hnonzero := h.nonzero
  have hfirst := h.positiveFirst
  simp only at hnonzero hfirst ⊢
  clear h
  induction ts with
  | nil => rfl
  | cons t rest ih =>
    have hrest := ih (fun s hs => hnonzero s (List.mem_cons_of_mem _ hs))
      (List.pairwise_cons.mp hfirst).2
    rcases lt_or_gt_of_ne (hnonzero t List.mem_cons_self) with hneg | hpos
    · -- everything behind a negative power is negative
      have hall : ∀ s ∈ t :: rest, s.power < 0 := by
        intro s hs
        rcases List.mem_cons.mp hs with rfl | hs
        · exact hneg
        · exact (List.pairwise_cons.mp hfirst).1 s hs hneg
      rw [CompoundUnit.ordered, List.filter_eq_nil_iff.mpr fun s hs => by simpa using (hall s hs).le,
        List.filter_eq_self.mpr fun s hs => by simpa using hall s hs, List.nil_append]
    · rw [CompoundUnit.ordered] at hrest
      rw [CompoundUnit.ordered, List.filter_cons, List.filter_cons, if_pos (by simpa using hpos),
        if_neg (by simpa using hpos.le), List.cons_append, hrest]

/-! ## Merging -/

/-- Factors that canonical form can put together: their sizes are above zero, and units under one key
measure the same. -/
structure Coherent (ts : List (UnitTerm ℝ)) : Prop where
  positive : Positive ⟨ts⟩
  dimension_eq : ∀ s ∈ ts, ∀ t ∈ ts, s.unit.base = t.unit.base → s.unit.dimension = t.unit.dimension

theorem Known.coherent {ts : List (UnitTerm ℝ)} (h : Known ⟨ts⟩) : Coherent ts where
  positive := h.positive
  dimension_eq s hs t ht := (h s hs).dimension_eq (h t ht)

theorem Coherent.sublist {ss ts : List (UnitTerm ℝ)} (h : Coherent ts) (hsub : ss.Sublist ts) :
    Coherent ss where
  positive t ht := h.positive t (hsub.subset ht)
  dimension_eq s hs t ht := h.dimension_eq s (hsub.subset hs) t (hsub.subset ht)

namespace Merging

/-- **The invariant of merging**: the scale and the factors with distinct keys hold the product of what
has been taken in. -/
structure Holds (m : Merging ℝ) (ts : List (UnitTerm ℝ)) : Prop where
  scale_pos : 0 < m.scale
  origin : ∀ t ∈ m.terms, ∃ s ∈ ts, s.unit = t.unit
  dimensional : ∀ t ∈ m.terms, t.unit.dimension.isOne = false
  distinct : (m.terms.map (·.unit.base)).Nodup
  size : m.scale * CompoundUnit.size ⟨m.terms⟩ = CompoundUnit.size ⟨ts⟩
  power : ∀ x, (CompoundUnit.dimension ⟨m.terms⟩).power x = (CompoundUnit.dimension ⟨ts⟩).power x

theorem holds_nil : Holds ⟨1, []⟩ [] :=
  ⟨one_pos, by simp, by simp, by simp, by simp, by simp⟩

/-- Among distinct keys the factor that is found is the only one that a merge changes. -/
theorem exists_split {ms : List (UnitTerm R)} (hdistinct : (ms.map (·.unit.base)).Nodup)
    {key : String} {first : UnitTerm R} (hfind : ms.find? (·.unit.base == key) = some first)
    (p : Rat) :
    ∃ before after, ms = before ++ first :: after ∧
      (ms.map fun s => if s.unit.base == key then { s with power := s.power + p } else s) =
        before ++ { first with power := first.power + p } :: after := by
  induction ms with
  | nil => cases hfind
  | cons t rest ih =>
    rw [List.map_cons, List.nodup_cons] at hdistinct
    rw [List.find?_cons] at hfind
    rcases hkey : t.unit.base == key with _ | _
    · -- another key: the factor stays in front
      rw [hkey] at hfind
      obtain ⟨before, after, hrest, hmap⟩ := ih hdistinct.2 hfind
      refine ⟨t :: before, after, by rw [hrest]; rfl, ?_⟩
      rw [List.map_cons, hmap, hkey]
      rfl
    · -- the key itself: no other factor has it
      rw [hkey] at hfind
      cases hfind
      refine ⟨[], rest, rfl, ?_⟩
      have hrest : ∀ s ∈ rest,
          (if s.unit.base == key then { s with power := s.power + p } else s) = id s := by
        intro s hs
        have hne : (s.unit.base == key) = false := by
          rw [← beq_iff_eq.mp hkey, beq_eq_false_iff_ne]
          exact fun heq => hdistinct.1 (heq ▸ List.mem_map_of_mem hs)
        rw [hne]
        rfl
      rw [List.map_cons, hkey, List.map_congr_left hrest, List.map_id]
      rfl

theorem Holds.originOf {m : Merging ℝ} {ts : List (UnitTerm ℝ)} (h : m.Holds ts) (t : UnitTerm ℝ) :
    ∀ s ∈ m.terms, ∃ r ∈ ts ++ [t], r.unit = s.unit := by
  intro s hs
  obtain ⟨r, hr, hrs⟩ := h.origin s hs
  exact ⟨r, List.mem_append_left _ hr, hrs⟩

/-- A factor with the power zero adds nothing. -/
theorem Holds.skip {m : Merging ℝ} {ts : List (UnitTerm ℝ)} (h : m.Holds ts) {t : UnitTerm ℝ}
    (hzero : t.power = 0) : m.Holds (ts ++ [t]) := by
  refine ⟨h.scale_pos, h.originOf t, h.dimensional, h.distinct, ?_, fun x => ?_⟩
  · rw [size_append, ← h.size, size_cons, hzero]
    simp
  · rw [power_dimension_append, ← h.power x]
    simp [hzero]

/-- The size of a plain number is set free. -/
theorem Holds.release {m : Merging ℝ} {ts : List (UnitTerm ℝ)} (h : m.Holds ts) {t : UnitTerm ℝ}
    (ht : 0 < t.unit.factor) (hplain : t.unit.dimension.isOne = true) :
    Holds ⟨m.scale * t.unit.factor ^ (t.power : ℝ), m.terms⟩ (ts ++ [t]) := by
  have hpow : 0 < t.unit.factor ^ (t.power : ℝ) := Real.rpow_pos_of_pos ht _
  refine ⟨mul_pos h.scale_pos hpow, h.originOf t, h.dimensional, h.distinct, ?_, fun x => ?_⟩
  · rw [size_append, size_cons, size_nil, mul_one, ← h.size]
    ring
  · rw [power_dimension_append, power_dimension_cons, power_dimension_nil, h.power x,
      Dimension.isOne_iff.mp hplain, Dimension.power_one]
    ring

/-- A factor with a new key goes behind the others. -/
theorem Holds.append {m : Merging ℝ} {ts : List (UnitTerm ℝ)} (h : m.Holds ts) {t : UnitTerm ℝ}
    (hdimensional : t.unit.dimension.isOne = false)
    (hfind : m.terms.find? (·.unit.base == t.unit.base) = none) :
    Holds ⟨m.scale, m.terms ++ [t]⟩ (ts ++ [t]) := by
  refine ⟨h.scale_pos, ?_, ?_, ?_, ?_, fun x => ?_⟩
  · intro s hs
    rcases List.mem_append.mp hs with hs | hs
    · exact h.originOf t s hs
    · exact ⟨s, List.mem_append_right _ hs, rfl⟩
  · intro s hs
    rcases List.mem_append.mp hs with hs | hs
    · exact h.dimensional s hs
    · rw [List.mem_singleton.mp hs, hdimensional]
  · rw [List.map_append]
    refine List.nodup_append.mpr ⟨h.distinct, by simp, ?_⟩
    rintro key hkey key' hkey' rfl
    obtain ⟨s, hs, rfl⟩ := List.mem_map.mp hkey
    simp only [List.map_cons, List.map_nil, List.mem_singleton] at hkey'
    exact List.find?_eq_none.mp hfind s hs (beq_iff_eq.mpr hkey')
  · rw [size_append, size_append, ← h.size, mul_assoc]
  · rw [power_dimension_append, power_dimension_append, h.power x]

/-- A factor with a known key gives its power to the first factor under that key, and the ratio of the
two sizes is set free. -/
theorem Holds.merge {m : Merging ℝ} {ts before after : List (UnitTerm ℝ)} (h : m.Holds ts)
    {first t : UnitTerm ℝ} (hsplit : m.terms = before ++ first :: after)
    (hfirst : 0 < first.unit.factor) (ht : 0 < t.unit.factor)
    (hdimension : first.unit.dimension = t.unit.dimension) :
    Holds ⟨m.scale * (t.unit.factor / first.unit.factor) ^ (t.power : ℝ),
      before ++ { first with power := first.power + t.power } :: after⟩ (ts ++ [t]) := by
  have hpow : 0 < (t.unit.factor / first.unit.factor) ^ (t.power : ℝ) :=
    Real.rpow_pos_of_pos (div_pos ht hfirst) _
  -- units and keys are those before the merge
  have hsame : ∀ s ∈ before ++ { first with power := first.power + t.power } :: after,
      ∃ r ∈ m.terms, r.unit = s.unit := by
    intro s hs
    rw [hsplit]
    rcases List.mem_append.mp hs with hs | hs
    · exact ⟨s, List.mem_append_left _ hs, rfl⟩
    rcases List.mem_cons.mp hs with rfl | hs
    · exact ⟨first, List.mem_append_right _ List.mem_cons_self, rfl⟩
    · exact ⟨s, List.mem_append_right _ (List.mem_cons_of_mem _ hs), rfl⟩
  refine ⟨mul_pos h.scale_pos hpow, ?_, ?_, ?_, ?_, fun x => ?_⟩
  · intro s hs
    obtain ⟨r, hr, hrs⟩ := hsame s hs
    exact hrs ▸ h.originOf t r hr
  · intro s hs
    obtain ⟨r, hr, hrs⟩ := hsame s hs
    exact hrs ▸ h.dimensional r hr
  · have hdistinct := h.distinct
    rw [hsplit, List.map_append, List.map_cons] at hdistinct
    rw [List.map_append, List.map_cons]
    exact hdistinct
  · -- what the scale gains makes up for the other size of the first unit
    have hsize := h.size
    rw [hsplit, size_append, size_cons] at hsize
    rw [size_append, size_cons, size_append, size_cons, size_nil, mul_one, ← hsize]
    push_cast
    rw [Real.rpow_add hfirst, Real.div_rpow ht.le hfirst.le]
    field_simp
  · have hpower := h.power x
    rw [hsplit, power_dimension_append, power_dimension_cons] at hpower
    rw [power_dimension_append, power_dimension_cons, power_dimension_append,
      power_dimension_cons, power_dimension_nil, ← hpower, hdimension]
    ring

/-- **One more factor is taken in**, whichever way it goes, and nothing is lost. -/
theorem Holds.add {m : Merging ℝ} {ts : List (UnitTerm ℝ)} (h : m.Holds ts) {t : UnitTerm ℝ}
    (hc : Coherent (ts ++ [t])) : ∃ m', m.add t = .ok m' ∧ m'.Holds (ts ++ [t]) := by
  have hmem : t ∈ ts ++ [t] := List.mem_append_right _ List.mem_cons_self
  have ht : 0 < t.unit.factor := hc.positive t hmem
  by_cases hzero : t.power = 0
  · refine ⟨m, ?_, h.skip hzero⟩
    rw [Merging.add, if_pos hzero]
    rfl
  rcases hplain : t.unit.dimension.isOne with _ | _
  · rcases hfind : m.terms.find? (·.unit.base == t.unit.base) with _ | first
    · -- the first factor under its key
      refine ⟨_, ?_, h.append hplain hfind⟩
      rw [Merging.add, if_neg hzero, hplain, hfind]
      rfl
    · -- its key is known: the power goes to the factor that is there
      obtain ⟨before, after, hsplit, hmap⟩ := exists_split h.distinct hfind t.power
      have hbase : first.unit.base = t.unit.base := by simpa using List.find?_some hfind
      obtain ⟨s, hs, hfirst⟩ := h.originOf t first (List.mem_of_find?_eq_some hfind)
      have hfirst_pos : 0 < first.unit.factor := hfirst ▸ hc.positive s hs
      have hdimension : first.unit.dimension = t.unit.dimension :=
        hfirst ▸ hc.dimension_eq s hs t hmem (hfirst ▸ hbase)
      refine ⟨_, ?_, h.merge hsplit hfirst_pos ht hdimension⟩
      rw [Merging.add, if_neg hzero, hplain, hfind]
      simp only [Checked.div_of_ne_zero hfirst_pos.ne', Checked.powRat_of_pos (div_pos ht hfirst_pos),
        bind, Except.bind, pure, Except.pure, hmap]
      rfl
  · -- a plain number goes into the scale
    refine ⟨_, ?_, h.release ht hplain⟩
    rw [Merging.add, if_neg hzero, hplain, Checked.powRat_of_pos ht]
    rfl

/-- All factors of a list are taken in, one after another. -/
theorem Holds.foldlM {m : Merging ℝ} {ts us : List (UnitTerm ℝ)} (h : m.Holds ts)
    (hc : Coherent (ts ++ us)) : ∃ m', us.foldlM Merging.add m = .ok m' ∧ m'.Holds (ts ++ us) := by
  induction us generalizing m ts with
  | nil => exact ⟨m, rfl, by rwa [List.append_nil]⟩
  | cons t rest ih =>
    rw [List.append_cons] at hc
    obtain ⟨m₁, hadd, h₁⟩ := h.add (hc.sublist (List.sublist_append_left _ _))
    obtain ⟨m₂, hrest, h₂⟩ := ih h₁ hc
    refine ⟨m₂, ?_, by rwa [List.append_assoc] at h₂⟩
    rw [List.foldlM_cons, hadd]
    exact hrest

end Merging

/-- What bringing factors into canonical form gives: a canonical unit of the same dimension, and the
number by which its size falls short of theirs. -/
structure CanonicalOf (ts : List (UnitTerm ℝ)) (u : CompoundUnit ℝ) (scale : ℝ) : Prop where
  scale_pos : 0 < scale
  size : scale * u.size = CompoundUnit.size ⟨ts⟩
  dimension : u.dimension = CompoundUnit.dimension ⟨ts⟩
  canonical : u.Canonical
  origin : ∀ t ∈ u.terms, ∃ s ∈ ts, s.unit = t.unit

theorem CanonicalOf.known {ts : List (UnitTerm ℝ)} {u : CompoundUnit ℝ} {scale : ℝ}
    (h : CanonicalOf ts u scale) (hts : Known ⟨ts⟩) : u.Known := by
  intro t ht
  obtain ⟨s, hs, hst⟩ := h.origin t ht
  exact hst ▸ hts s hs

theorem Merging.Holds.finish {m : Merging ℝ} {ts : List (UnitTerm ℝ)} (h : m.Holds ts)
    (hts : Positive ⟨ts⟩) : ∃ u scale, m.finish = .ok (u, scale) ∧ CanonicalOf ts u scale := by
  have hpositive : Positive ⟨ordered m.terms⟩ := by
    intro t ht
    obtain ⟨s, hs, hst⟩ := h.origin t (mem_ordered.mp ht).1
    exact hst ▸ hts s hs
  have hdimension : (⟨ordered m.terms⟩ : CompoundUnit ℝ).dimension = CompoundUnit.dimension ⟨ts⟩ :=
    dimension_ext fun x => by rw [power_dimension_ordered, h.power x]
  have hsize := h.size
  rw [← size_ordered] at hsize
  rw [Merging.finish, ordered_filter]
  by_cases hcancelled : (!(ordered m.terms).isEmpty &&
      (⟨ordered m.terms⟩ : CompoundUnit ℝ).isPlain) = true
  · -- the dimensions have cancelled: only a number is left
    have hplain := (Bool.and_eq_true _ _ ▸ hcancelled).2
    have hone := isPlain_iff_dimension.mp hplain
    refine ⟨one, m.scale * CompoundUnit.size ⟨ordered m.terms⟩, ?_,
      ⟨?_, ?_, ?_, canonical_one, by simp [one]⟩⟩
    · rw [if_pos hcancelled, hpositive.factor_eq]
      rfl
    · exact mul_pos h.scale_pos hpositive.size_pos
    · rw [size_one, mul_one, hsize]
    · rw [← hdimension, hone]
      rfl
  · refine ⟨⟨ordered m.terms⟩, m.scale, ?_, ⟨h.scale_pos, hsize, hdimension, ?_, ?_⟩⟩
    · rw [if_neg hcancelled]
      rfl
    · refine canonical_ordered h.dimensional h.distinct fun hplain => ?_
      rw [hplain, Bool.and_true, Bool.not_eq_true', Bool.not_eq_false] at hcancelled
      exact List.isEmpty_iff.mp hcancelled
    · exact fun t ht => h.origin t (mem_ordered.mp ht).1

/-- **Canonical form loses nothing**, and it always exists. -/
theorem Coherent.canonicalize {ts : List (UnitTerm ℝ)} (h : Coherent ts) :
    ∃ u scale, canonicalize ts = .ok (u, scale) ∧ CanonicalOf ts u scale := by
  obtain ⟨m, hm, hholds⟩ := Merging.holds_nil.foldlM h
  obtain ⟨u, scale, hfinish, hspec⟩ := hholds.finish h.positive
  refine ⟨u, scale, ?_, hspec⟩
  rw [CompoundUnit.canonicalize, Scalar.ofNat_real, Nat.cast_one, hm]
  exact hfinish

/-- Factors that are known by name have a canonical form, of the same size and dimension. -/
theorem canonicalize_spec {ts : List (UnitTerm ℝ)} (h : Known ⟨ts⟩) :
    ∃ u scale, canonicalize ts = .ok (u, scale) ∧ CanonicalOf ts u scale :=
  h.coherent.canonicalize

/-- **Canonical form keeps the physical unit.** Factors of sizes above zero, of which those under one
key have one dimension, always have a canonical unit. The scale that is set free times its size is the
product of the powers of their sizes, and its dimension is what their dimensions add up to, power by
power. -/
theorem canonicalize_preserves (ts : List (UnitTerm ℝ)) (hpos : ∀ t ∈ ts, 0 < t.unit.factor)
    (hkeys : ∀ s ∈ ts, ∀ t ∈ ts, s.unit.base = t.unit.base → s.unit.dimension = t.unit.dimension) :
    ∃ u scale size, CompoundUnit.canonicalize ts = .ok (u, scale) ∧ u.factor = .ok size ∧
      scale * size = (ts.map fun t => t.unit.factor ^ (t.power : ℝ)).prod ∧
      u.dimension = (ts.map fun t => t.unit.dimension.pow t.power).foldl Dimension.multiply .one ∧
      ∀ x, u.dimension.power x = (ts.map fun t => t.unit.dimension.power x * t.power).sum := by
  have hc : Coherent ts := ⟨hpos, hkeys⟩
  obtain ⟨u, scale, hcanonicalize, h⟩ := hc.canonicalize
  have hpositive : u.Positive := by
    intro t ht
    obtain ⟨s, hs, hst⟩ := h.origin t ht
    exact hst ▸ hpos s hs
  refine ⟨u, scale, u.size, hcanonicalize, hpositive.factor_eq, h.size, ?_, fun x => ?_⟩
  · rw [h.dimension, dimension, List.foldl_map]
  · rw [h.dimension, power_dimension]

/-- Metres per kilometre, which cancels, then a counting word, and kilometres under the same key once
more. -/
def thereAndBack : List (UnitTerm ℝ) :=
  let length := Dimension.ofPowers fun | .length => 1 | _ => 0
  let metre : NamedUnit ℝ := ⟨"meter", length, 1, "meter", true⟩
  let kilometre : NamedUnit ℝ := ⟨"kilometer", length, 1000, "meter", false⟩
  let dozen : NamedUnit ℝ := ⟨"dozen", .one, 12, "dozen", false⟩
  [⟨"m", metre, 1⟩, ⟨"km", kilometre, -1⟩, ⟨"dozen", dozen, 2⟩, ⟨"km", kilometre, 2⟩]

theorem thereAndBack_preserved :
    ∃ u scale size, CompoundUnit.canonicalize thereAndBack = .ok (u, scale) ∧ u.factor = .ok size ∧
      scale * size = 144000 ∧ u.dimension.power (.base 1) = 2 := by
  obtain ⟨u, scale, size, hcanonicalize, hsize, hproduct, -, hpower⟩ :=
    canonicalize_preserves thereAndBack (by simp [thereAndBack])
      (by simp [thereAndBack])
  refine ⟨u, scale, size, hcanonicalize, hsize, ?_, ?_⟩
  · rw [hproduct]
    norm_num [thereAndBack]
  · rw [hpower]
    norm_num [thereAndBack, Dimension.power, Dimension.ofPowers, Dimension.one]

end CompoundUnit

end Ballpark
