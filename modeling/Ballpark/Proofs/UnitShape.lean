import Ballpark.Proofs.BaseUnit
import Ballpark.Proofs.EvaluationOutcome

/-!
# Units never leave canonical form

Over the reals bringing a product into canonical form always succeeds. Over any numbers, machine numbers
among them, it may fail, but what it gives is canonical whatever factors went in
(`CompoundUnit.canonicalize_shape`): no power is zero, no factor is a plain number, keys are different,
positive powers come first and a unit of plain numbers has no factors. The invariant is that of the
merge, one lemma for a factor that is taken in.

The way to base units writes a label with one tick in front, so there the keys are different only if
labels are named without ticks. All labels that are read are; so canonical units whose labels are named
in this way are a class that neither arithmetic nor reading leaves (`UnitClass.shaped`).
-/

namespace Ballpark

variable {R : Type}

namespace CompoundUnit

namespace Merging

/-- What the factors of a merge always are: none is a plain number, their keys are different, and their
units are units that have been taken in, under the same symbols. -/
structure Tidy (m : Merging R) (ts : List (UnitTerm R)) : Prop where
  dimensional : ∀ t ∈ m.terms, t.unit.dimension.isOne = false
  distinct : (m.terms.map (·.unit.base)).Nodup
  origin : ∀ t ∈ m.terms, ∃ s ∈ ts, s.symbol = t.symbol ∧ s.unit = t.unit

theorem tidy_nil (scale : R) (ts : List (UnitTerm R)) : Tidy ⟨scale, []⟩ ts :=
  ⟨by simp, by simp, by simp⟩

/-- The scale is no matter of the factors. -/
theorem Tidy.rescale {m : Merging R} {ts : List (UnitTerm R)} (h : m.Tidy ts) (scale : R) :
    Tidy ⟨scale, m.terms⟩ ts :=
  ⟨h.dimensional, h.distinct, h.origin⟩

/-- A factor with a new key goes behind the others. -/
theorem Tidy.append {m : Merging R} {ts : List (UnitTerm R)} (h : m.Tidy ts) {t : UnitTerm R}
    (ht : t ∈ ts) (hdimensional : t.unit.dimension.isOne = false)
    (hfind : m.terms.find? (·.unit.base == t.unit.base) = none) :
    Tidy ⟨m.scale, m.terms ++ [t]⟩ ts := by
  refine ⟨fun s hs => ?_, ?_, fun s hs => ?_⟩
  · rcases List.mem_append.mp hs with hs | hs
    · exact h.dimensional s hs
    · rw [List.mem_singleton.mp hs, hdimensional]
  · rw [List.map_append]
    refine List.nodup_append.mpr ⟨h.distinct, by simp, ?_⟩
    rintro key hkey key' hkey' rfl
    obtain ⟨s, hs, rfl⟩ := List.mem_map.mp hkey
    simp only [List.map_cons, List.map_nil, List.mem_singleton] at hkey'
    exact List.find?_eq_none.mp hfind s hs (beq_iff_eq.mpr hkey')
  · rcases List.mem_append.mp hs with hs | hs
    · exact h.origin s hs
    · exact ⟨t, ht, (List.mem_singleton.mp hs) ▸ ⟨rfl, rfl⟩⟩

/-- A merge into a factor that is there changes its power alone. -/
theorem Tidy.merge {m : Merging R} {ts : List (UnitTerm R)} (h : m.Tidy ts) (scale : R) (key : String)
    (p : Rat) : Tidy ⟨scale, m.terms.map fun s =>
      if s.unit.base == key then { s with power := s.power + p } else s⟩ ts := by
  have hunit : ∀ s : UnitTerm R,
      (if s.unit.base == key then { s with power := s.power + p } else s).unit = s.unit := by
    intro s
    split <;> rfl
  refine ⟨fun s hs => ?_, ?_, fun s hs => ?_⟩
  · obtain ⟨r, hr, rfl⟩ := List.mem_map.mp hs
    rw [hunit]
    exact h.dimensional r hr
  · rw [List.map_map]
    have hkeys : (fun s : UnitTerm R => s.unit.base) ∘ (fun s =>
        if s.unit.base == key then { s with power := s.power + p } else s) = (·.unit.base) :=
      funext fun s => congrArg NamedUnit.base (hunit s)
    rw [hkeys]
    exact h.distinct
  · obtain ⟨r, hr, rfl⟩ := List.mem_map.mp hs
    obtain ⟨q, hq, hsymbol, hqr⟩ := h.origin r hr
    refine ⟨q, hq, hsymbol.trans ?_, hqr.trans (hunit r).symm⟩
    split <;> rfl

variable [Scalar R]

/-- One more factor is taken in, whichever way it goes. -/
theorem Tidy.add {m : Merging R} {ts : List (UnitTerm R)} (h : m.Tidy ts) {t : UnitTerm R}
    (ht : t ∈ ts) : Ends (m.add t) (·.Tidy ts) Checked.ArithmeticOnly := by
  rw [Merging.add]
  split
  · exact .ok h
  split
  · exact (Checked.powRat_ends _ _).bind fun _ _ => .ok (h.rescale _)
  · rename_i hdimensional
    split
    · rename_i hfind
      exact .ok (h.append ht (Bool.eq_false_iff.mpr hdimensional) hfind)
    · refine (Checked.div_ends _ _).bind fun ratio _ => ?_
      exact (Checked.powRat_ends _ _).bind fun _ _ => .ok (h.merge _ _ _)

/-- All factors of a list are taken in, one after another. -/
theorem Tidy.foldlM {m : Merging R} {ts us : List (UnitTerm R)} (h : m.Tidy ts) (hus : us ⊆ ts) :
    Ends (us.foldlM Merging.add m) (·.Tidy ts) Checked.ArithmeticOnly := by
  induction us generalizing m with
  | nil => exact .ok h
  | cons t rest ih =>
    rw [List.foldlM_cons]
    exact (h.add (hus List.mem_cons_self)).bind fun _ hm =>
      ih hm fun _ hs => hus (List.mem_cons_of_mem _ hs)

end Merging

/-- A canonical unit that is made of the units of some factors, under their symbols. -/
structure Arranges (ts : List (UnitTerm R)) (u : CompoundUnit R) : Prop where
  canonical : u.Canonical
  origin : ∀ t ∈ u.terms, ∃ s ∈ ts, s.symbol = t.symbol ∧ s.unit = t.unit

variable [Scalar R]

theorem Merging.Tidy.finish {m : Merging R} {ts : List (UnitTerm R)} (h : m.Tidy ts) :
    Ends m.finish (fun r => Arranges ts r.1) Checked.ArithmeticOnly := by
  rw [Merging.finish, ordered_filter]
  split
  · exact (CompoundUnit.factor_ends _).bind fun _ _ => .ok ⟨canonical_one, by simp [one]⟩
  · rename_i hkept
    refine .ok ⟨canonical_ordered h.dimensional h.distinct fun hplain => ?_, fun t ht => ?_⟩
    · rw [hplain, Bool.and_true, Bool.not_eq_true', Bool.not_eq_false] at hkept
      exact List.isEmpty_iff.mp hkept
    · exact h.origin t (mem_ordered.mp ht).1

/-- **What is brought into canonical form is canonical**, whatever it was. -/
theorem canonicalize_shape (ts : List (UnitTerm R)) :
    Ends (canonicalize ts) (fun r => Arranges ts r.1) Checked.ArithmeticOnly :=
  ((Merging.tidy_nil _ ts).foldlM fun _ h => h).bind fun _ hm => hm.finish

/-! ## Labels -/

/-- The labels in the dimensions of factors are named without their ticks. -/
def TickFree (ts : List (UnitTerm R)) : Prop :=
  ∀ t ∈ ts, t.unit.dimension.TickFree

omit [Scalar R] in
theorem TickFree.append {ts us : List (UnitTerm R)} (ht : TickFree ts) (hu : TickFree us) :
    TickFree (ts ++ us) :=
  fun t h => (List.mem_append.mp h).elim (ht t) (hu t)

omit [Scalar R] in
/-- Changing the powers of factors changes no labels. -/
theorem TickFree.mapPower {ts : List (UnitTerm R)} (h : TickFree ts) (f : Rat → Rat) :
    TickFree (ts.map fun t => { t with power := f t.power }) := by
  intro t ht
  obtain ⟨s, hs, rfl⟩ := List.mem_map.mp ht
  exact h s hs

theorem Known.tickFree_terms {u : CompoundUnit R} (h : u.Known) : TickFree u.terms :=
  fun t ht => (h t ht).tickFree

omit [Scalar R] in
theorem TickFree.dimension {u : CompoundUnit R} (h : TickFree u.terms) : u.dimension.TickFree := by
  have hfold : ∀ (ts : List (UnitTerm R)) (d : Dimension), TickFree ts → d.TickFree →
      (ts.foldl (fun d t => d.multiply (t.unit.dimension.pow t.power)) d).TickFree := by
    intro ts
    induction ts with
    | nil => exact fun _ _ hd => hd
    | cons t rest ih =>
      intro d hts hd
      exact ih _ (fun s hs => hts s (List.mem_cons_of_mem _ hs))
        (hd.multiply ((hts t List.mem_cons_self).pow _))
  exact hfold u.terms _ h .one

omit [Scalar R] in
theorem Arranges.tickFree {ts : List (UnitTerm R)} {u : CompoundUnit R} (h : Arranges ts u)
    (hts : TickFree ts) : TickFree u.terms := by
  intro t ht
  obtain ⟨s, hs, -, hst⟩ := h.origin t ht
  exact hst ▸ hts s hs

/-- A unit in canonical form whose labels are named without their ticks. -/
structure Shaped (u : CompoundUnit R) : Prop where
  canonical : u.Canonical
  tickFree : TickFree u.terms

omit [Scalar R] in
theorem shaped_one : (one : CompoundUnit R).Shaped :=
  ⟨canonical_one, fun _ ht => absurd ht List.not_mem_nil⟩

omit [Scalar R] in
theorem Arranges.shaped {ts : List (UnitTerm R)} {u : CompoundUnit R} (h : Arranges ts u)
    (hts : TickFree ts) : u.Shaped :=
  ⟨h.canonical, h.tickFree hts⟩

theorem shaped_ofDimension {d : Dimension} (hnormal : d.Normal) (htick : d.TickFree) :
    (ofDimension d : CompoundUnit R).Shaped :=
  ⟨canonical_ofDimension hnormal htick, (known_ofDimension d).tickFree_terms⟩

theorem multiply_shaped {u v w : CompoundUnit R} {scale : R} (hu : TickFree u.terms)
    (hv : TickFree v.terms) (h : u.multiply v = .ok (w, scale)) : w.Shaped :=
  ((canonicalize_shape _).of_ok h).shaped (hu.append hv)

theorem divide_shaped {u v w : CompoundUnit R} {scale : R} (hu : TickFree u.terms)
    (hv : TickFree v.terms) (h : u.divide v = .ok (w, scale)) : w.Shaped :=
  ((canonicalize_shape _).of_ok h).shaped (hu.append (hv.mapPower (-·)))

theorem pow_shaped {u w : CompoundUnit R} {k : R} (hu : u.Shaped) (h : u.pow k = .ok w) :
    w.Shaped := by
  rw [pow] at h
  split at h
  · cases h
    exact hu
  split at h
  · cases h
  · obtain ⟨exponent, -, h⟩ := ok_of_bind h
    obtain ⟨r, hr, h⟩ := ok_of_bind h
    cases h
    exact ((canonicalize_shape _).of_ok hr).shaped (hu.tickFree.mapPower (· * exponent))

theorem toBase_shaped {u w : CompoundUnit R} {scale : R} (hu : u.Shaped)
    (h : u.toBase = .ok (w, scale)) : w.Shaped := by
  obtain ⟨size, -, h⟩ := ok_of_bind h
  cases h
  exact shaped_ofDimension u.normal_dimension hu.tickFree.dimension

theorem ofText_shaped {text : String} {u : CompoundUnit R} {scale : R}
    (h : ofText text = .ok (u, scale)) : u.Shaped := by
  simp only [ofText] at h
  split at h
  · cases h
    exact shaped_one
  · obtain ⟨tokens, -, h⟩ := ok_of_bind h
    obtain ⟨read, hread, h⟩ := ok_of_bind h
    obtain ⟨r, hr, h⟩ := ok_of_bind h
    cases h
    have hknown : Known ⟨read.terms⟩ := (UnitReader.all_ends _ _).of_ok hread
    exact ((canonicalize_shape _).of_ok hr).shaped hknown.tickFree_terms

end CompoundUnit

/-! ## Units that the program defines -/

namespace Session

variable [Scalar R] {units : Bindings (Quantity R)} {q r : Quantity R}

/-- Taking a definition in brings the unit into canonical form. -/
theorem substitute_shaped (hunits : units.All fun d => d.unit.Shaped)
    (hq : CompoundUnit.TickFree q.unit.terms) {t : UnitTerm R} {definition : Quantity R}
    (hdefined : units.get? t.unit.base = some definition) (h : substitute units q t = .ok r) :
    r.unit.Shaped := by
  rw [substitute, hdefined] at h
  obtain ⟨k, -, h⟩ := ok_of_bind h
  obtain ⟨p, hp, h⟩ := ok_of_bind h
  obtain ⟨u, hu, hpu⟩ := ok_of_bind hp
  obtain ⟨w, hw, h⟩ := ok_of_bind h
  cases hpu
  cases h
  exact CompoundUnit.multiply_shaped hq (CompoundUnit.pow_shaped (hunits _ _ hdefined) hu).tickFree hw

/-- Taking definitions in brings the unit into canonical form, or there was none to take. -/
theorem foldlM_substitute_shaped (hunits : units.All fun d => d.unit.Shaped) {ts : List (UnitTerm R)}
    (hq : CompoundUnit.TickFree q.unit.terms) (h : ts.foldlM (substitute units) q = .ok r) :
    r.unit.Shaped ∨ r = q ∧ ∀ t ∈ ts, units.get? t.unit.base = none := by
  induction ts generalizing q with
  | nil =>
    cases h
    exact .inr ⟨rfl, fun _ ht => absurd ht List.not_mem_nil⟩
  | cons t rest ih =>
    rw [List.foldlM_cons] at h
    obtain ⟨p, hp, h⟩ := ok_of_bind h
    rcases hdefined : units.get? t.unit.base with _ | definition
    · have hsame : p = q := by
        rw [substitute, hdefined] at hp
        exact (Except.ok.inj hp).symm
      rw [hsame] at h
      refine (ih hq h).imp id fun hsame => ⟨hsame.1, ?_⟩
      exact List.forall_mem_cons.mpr ⟨hdefined, hsame.2⟩
    · have hshaped : p.unit.Shaped := substitute_shaped hunits hq hdefined hp
      exact .inl ((ih hshaped.tickFree h).elim id fun hsame => hsame.1 ▸ hshaped)

/-- **What a unit text stands for** is in canonical form, whatever the program has defined. -/
theorem unitQuantity_shaped (hunits : units.All fun d => d.unit.Shaped) {text : String}
    (h : unitQuantity units text = .ok q) : q.unit.Shaped := by
  obtain ⟨⟨u, scale⟩, hu, h⟩ := ok_of_bind h
  have hshaped := CompoundUnit.ofText_shaped hu
  have hpart : CompoundUnit.TickFree (u.terms.filter fun t => !units.contains t.unit.base) :=
    fun t ht => hshaped.tickFree t (List.mem_of_mem_filter ht)
  rcases foldlM_substitute_shaped hunits hpart h with hq | ⟨rfl, hnone⟩
  · exact hq
  · -- nothing was to be taken in, so no factor was set aside
    have hall : u.terms.filter (fun t => !units.contains t.unit.base) = u.terms := by
      refine List.filter_eq_self.mpr fun t ht => ?_
      rw [Bindings.contains, hnone t ht]
      rfl
    rw [hall]
    exact hshaped

end Session

/-- Canonical units whose labels are named without their ticks, over any numbers. -/
def UnitClass.shaped (R : Type) [Scalar R] : UnitClass R where
  Mem := CompoundUnit.Shaped
  one := CompoundUnit.shaped_one
  radian := CompoundUnit.shaped_ofDimension (Dimension.normal_ofList _) fun _ h => absurd rfl h
  multiply hu hv h := CompoundUnit.multiply_shaped hu.tickFree hv.tickFree h
  divide hu hv h := CompoundUnit.divide_shaped hu.tickFree hv.tickFree h
  pow hu h := CompoundUnit.pow_shaped hu h
  toBase hu h := CompoundUnit.toBase_shaped hu h
  ofText h := CompoundUnit.ofText_shaped h
  unitQuantity hunits h := Session.unitQuantity_shaped hunits h

end Ballpark
