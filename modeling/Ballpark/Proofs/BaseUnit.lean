import Ballpark.Proofs.UnitArithmetic
import Mathlib.Tactic.FinCases

/-!
# Base units

The unit that is made from a dimension has that dimension and size one, as long as the labels of the
dimension carry no ticks (`CompoundUnit.ofDimension_spec`). So the way to base units multiplies values
by the size of their unit and leaves a unit of size one (`CompoundUnit.toBase_spec`).
-/

namespace Ballpark

namespace UnitName

/-- The symbols of base quantities resolve to their entries. -/
theorem resolve?_symbol : ∀ b ∈ Base.all,
    resolve? b.symbol = (Vocabulary.lookup? b.symbol).map fun e => ⟨.entry e, none, b.symbol⟩ := by
  decide +kernel

theorem resolve?_tick (l : String) : resolve? ("'" ++ l) =
    some ⟨.label (labelName ("'" ++ l)), none, "'" ++ l⟩ := by
  have hhead : (("'" ++ l).toList.head? == some '\'') = true := by
    rw [UnitMeaning.tick_head]
    rfl
  rw [resolve?, if_pos hhead]

theorem labelName_tick (l : String) : labelName ("'" ++ l) = labelName l := by
  rw [labelName, String.toList_append]
  rfl

end UnitName

namespace CompoundUnit

/-- The factor of a base quantity. -/
def baseTerm? {R : Type} [Scalar R] (b : Base) (p : Rat) : Option (UnitTerm R) :=
  if p = 0 then none
  else (Vocabulary.lookup? b.symbol).map fun e => UnitTerm.mk b.symbol e.toUnit p

/-- The factor of a label. -/
def labelTerm {R : Type} [Scalar R] (e : String × Rat) : UnitTerm R :=
  ⟨"'" ++ e.1, (UnitMeaning.label (UnitName.labelName e.1)).toUnit, e.2⟩

/-- The factors of a dimension, positive and negative powers as they come. -/
def baseTerms {R : Type} [Scalar R] (d : Dimension) : List (UnitTerm R) :=
  (Base.all.zip d.exponents.toList).filterMap (fun e => baseTerm? e.1 e.2) ++ d.labels.map labelTerm

theorem ofDimension_eq {R : Type} [Scalar R] (d : Dimension) :
    (ofDimension d : CompoundUnit R) = ⟨ordered (baseTerms d)⟩ := rfl

variable {R : Type} [Scalar R]

/-! ## One base quantity -/

theorem baseTerm?_eq_some {b : Base} {p : Rat} {t : UnitTerm R} (h : baseTerm? b p = some t) :
    ∃ e, Vocabulary.lookup? b.symbol = some e ∧ e.measures b = true ∧ t = ⟨b.symbol, e.toUnit, p⟩ := by
  obtain ⟨e, he, hmeasures⟩ := Vocabulary.lookup?_symbol b
  rw [baseTerm?, he] at h
  split at h
  · cases h
  · cases h
    exact ⟨e, he, hmeasures, rfl⟩

theorem known_baseTerm? {b : Base} {p : Rat} {t : UnitTerm R} (h : baseTerm? b p = some t) :
    t.unit.Known := by
  obtain ⟨e, he, -, rfl⟩ := baseTerm?_eq_some h
  refine ⟨b.symbol, ⟨.entry e, none, b.symbol⟩, ?_, rfl⟩
  rw [UnitName.resolve?_symbol b b.mem_all, he]
  rfl

theorem factor_baseTerm? {b : Base} {p : Rat} {t : UnitTerm ℝ} (h : baseTerm? b p = some t) :
    t.unit.factor = 1 := by
  obtain ⟨e, -, hmeasures, rfl⟩ := baseTerm?_eq_some h
  exact VocabularyEntry.factor_of_measures hmeasures

theorem dimension_baseTerm? {b : Base} {p : Rat} {t : UnitTerm R} (h : baseTerm? b p = some t) :
    t.unit.dimension = Dimension.ofList [(b, 1)] := by
  obtain ⟨e, -, hmeasures, rfl⟩ := baseTerm?_eq_some h
  rw [e.toUnit_dimension]
  exact VocabularyEntry.dimension_of_measures hmeasures

/-- The dimension of a base quantity has the power one, and of that quantity alone. -/
theorem power_ofList (b : Base) (i : Fin 9) :
    (Dimension.ofList [(b, 1)]).power (.base i) = if Base.all[i.val]? = some b then 1 else 0 := by
  have hall : ∀ b ∈ Base.all, ∀ i : Fin 9, (Dimension.ofList [(b, 1)]).power (.base i) =
      if Base.all[i.val]? = some b then 1 else 0 := by
    decide +kernel
  exact hall b b.mem_all i

theorem isOne_ofList (b : Base) : (Dimension.ofList [(b, 1)]).isOne = false := by
  have hall : ∀ b ∈ Base.all, (Dimension.ofList [(b, 1)]).isOne = false := by decide +kernel
  exact hall b b.mem_all

/-- The dimension of a base factor, also where the power is zero and there is none. -/
theorem power_toList_baseTerm? (b : Base) (p : Rat) (x : Dimension.Axis) :
    (CompoundUnit.dimension ⟨(baseTerm? (R := R) b p).toList⟩).power x =
      (Dimension.ofList [(b, 1)]).power x * p := by
  rcases h : baseTerm? (R := R) b p with _ | t
  · obtain ⟨e, he, -⟩ := Vocabulary.lookup?_symbol b
    rw [baseTerm?, he] at h
    split at h
    · rename_i hp
      simp [hp]
    · cases h
  · have hpower : t.power = p := by
      obtain ⟨e, -, -, rfl⟩ := baseTerm?_eq_some h
      rfl
    rw [Option.toList_some, power_dimension_cons, dimension_baseTerm? h, hpower, power_dimension_nil,
      add_zero]

/-! ## All factors of a dimension -/

theorem mem_baseTerms {d : Dimension} {t : UnitTerm R} (h : t ∈ baseTerms d) :
    (∃ b p, baseTerm? b p = some t) ∨ ∃ e ∈ d.labels, labelTerm e = t := by
  rcases List.mem_append.mp h with h | h
  · obtain ⟨e, -, he⟩ := List.mem_filterMap.mp h
    exact .inl ⟨e.1, e.2, he⟩
  · obtain ⟨e, he, het⟩ := List.mem_map.mp h
    exact .inr ⟨e, he, het⟩

theorem known_baseTerms (d : Dimension) : Known (⟨baseTerms d⟩ : CompoundUnit R) := by
  intro t ht
  rcases mem_baseTerms ht with ⟨b, p, h⟩ | ⟨e, -, rfl⟩
  · exact known_baseTerm? h
  · refine ⟨"'" ++ e.1, _, UnitName.resolve?_tick e.1, ?_⟩
    rw [UnitName.labelName_tick]
    rfl

theorem size_baseTerms (d : Dimension) : size ⟨baseTerms d⟩ = 1 := by
  refine List.prod_eq_one fun x hx => ?_
  obtain ⟨t, ht, rfl⟩ := List.mem_map.mp hx
  have hfactor : t.unit.factor = 1 := by
    rcases mem_baseTerms ht with ⟨b, p, h⟩ | ⟨e, -, rfl⟩
    · exact factor_baseTerm? h
    · simp [labelTerm, UnitMeaning.toUnit]
  rw [hfactor, Real.one_rpow]

theorem power_filterMap_baseTerm? (es : List (Base × Rat)) (x : Dimension.Axis) :
    (CompoundUnit.dimension
      ⟨es.filterMap fun e => baseTerm? (R := R) e.1 e.2⟩).power x =
      (es.map fun e => (Dimension.ofList [(e.1, 1)]).power x * e.2).sum := by
  induction es with
  | nil => simp
  | cons e rest ih =>
    have hsplit : (e :: rest).filterMap (fun e => baseTerm? (R := R) e.1 e.2) =
        (baseTerm? (R := R) e.1 e.2).toList ++
          rest.filterMap fun e => baseTerm? (R := R) e.1 e.2 := by
      rw [List.filterMap_cons]
      rcases baseTerm? (R := R) e.1 e.2 with _ | t
      · rfl
      · rfl
    rw [hsplit, power_dimension_append, ih, power_toList_baseTerm?, List.map_cons, List.sum_cons]

theorem power_labelTerms_base (ls : LabelPowers) (i : Fin 9) :
    (CompoundUnit.dimension (⟨ls.map labelTerm⟩ : CompoundUnit R)).power (.base i) = 0 := by
  induction ls with
  | nil => simp
  | cons e rest ih =>
    have hzero : (Dimension.label (UnitName.labelName e.1)).power (.base i) = 0 := by
      simp [Dimension.power, Dimension.label]
    rw [List.map_cons, power_dimension_cons, ih]
    simp [labelTerm, UnitMeaning.toUnit, hzero]

theorem power_labelTerms_label {ls : LabelPowers} (h : ∀ e ∈ ls, UnitName.labelName e.1 = e.1)
    (l : String) :
    (CompoundUnit.dimension (⟨ls.map labelTerm⟩ : CompoundUnit R)).power (.label l) =
      ls.power l := by
  induction ls with
  | nil => simp
  | cons e rest ih =>
    rw [List.map_cons, power_dimension_cons, ih fun x hx => h x (List.mem_cons_of_mem _ hx),
      LabelPowers.power_cons]
    simp [labelTerm, UnitMeaning.toUnit, Dimension.power, Dimension.label, h e List.mem_cons_self]

theorem labelName_of_mem {d : Dimension} (hnormal : d.Normal) (htick : d.TickFree)
    {e : String × Rat} (he : e ∈ d.labels) : UnitName.labelName e.1 = e.1 := by
  refine htick e.1 ?_
  have hpower : d.power (.label e.1) = e.2 := LabelPowers.Normal.power_of_mem hnormal he
  rw [hpower]
  exact hnormal.nonzero e he

/-- Each base quantity is met once on the way through the exponents. -/
theorem sum_powers (exponents : Vector Rat 9) (i : Fin 9) :
    ((Base.all.zip exponents.toList).map fun e =>
      (Dimension.ofList [(e.1, 1)]).power (.base i) * e.2).sum = exponents.get i := by
  have hlist : exponents.toList = [exponents[0], exponents[1], exponents[2], exponents[3], exponents[4],
      exponents[5], exponents[6], exponents[7], exponents[8]] := by
    refine List.ext_getElem (by simp) fun j hj _ => ?_
    rw [Vector.length_toList] at hj
    interval_cases j <;> rfl
  rw [hlist]
  fin_cases i <;> simp [Base.all, power_ofList] <;> rfl

theorem power_baseTerms {d : Dimension} (hnormal : d.Normal) (htick : d.TickFree)
    (x : Dimension.Axis) :
    (CompoundUnit.dimension (⟨baseTerms d⟩ : CompoundUnit R)).power x = d.power x := by
  rw [baseTerms, power_dimension_append, power_filterMap_baseTerm?]
  cases x with
  | label l =>
    rw [power_labelTerms_label fun e he => labelName_of_mem hnormal htick he]
    have hzero : ((Base.all.zip d.exponents.toList).map fun e =>
        (Dimension.ofList [(e.1, 1)]).power (.label l) * e.2).sum = 0 := by
      refine List.sum_eq_zero fun y hy => ?_
      obtain ⟨e, -, rfl⟩ := List.mem_map.mp hy
      exact zero_mul _
    rw [hzero, zero_add]
    rfl
  | base i =>
    rw [power_labelTerms_base, add_zero]
    exact sum_powers d.exponents i

theorem dimensional_baseTerms {d : Dimension} {t : UnitTerm R} (h : t ∈ baseTerms d) :
    t.unit.dimension.isOne = false := by
  rcases mem_baseTerms h with ⟨b, p, h⟩ | ⟨e, -, rfl⟩
  · rw [dimension_baseTerm? h]
    exact isOne_ofList b
  · simp [labelTerm, UnitMeaning.toUnit, Dimension.isOne, Dimension.label]

/-- Factors of different base quantities have different keys. -/
theorem distinct_baseTerms? {es : List (Base × Rat)} (h : (es.map (·.1)).Sublist Base.all) :
    ((es.filterMap fun e => baseTerm? (R := R) e.1 e.2).map (·.unit.base)).Nodup := by
  have hkeys : ((es.map fun e => (Vocabulary.lookup? e.1.symbol).map (·.key))).Nodup := by
    have hsub := h.map fun b => (Vocabulary.lookup? b.symbol).map (·.key)
    rw [List.map_map] at hsub
    exact Vocabulary.symbolKeys_nodup.sublist hsub
  clear h
  induction es with
  | nil => simp
  | cons e rest ih =>
    rw [List.map_cons, List.nodup_cons] at hkeys
    rw [List.filterMap_cons]
    rcases h : baseTerm? (R := R) e.1 e.2 with _ | t
    · exact ih hkeys.2
    · refine List.nodup_cons.mpr ⟨fun hmem => hkeys.1 ?_, ih hkeys.2⟩
      obtain ⟨s, hs, hst⟩ := List.mem_map.mp hmem
      obtain ⟨f, hf, hfs⟩ := List.mem_filterMap.mp hs
      obtain ⟨x, hx, -, rfl⟩ := baseTerm?_eq_some h
      obtain ⟨y, hy, -, rfl⟩ := baseTerm?_eq_some hfs
      simp only [VocabularyEntry.toUnit_base] at hst
      refine List.mem_map.mpr ⟨f, hf, ?_⟩
      rw [hx, hy, Option.map_some, Option.map_some, hst]

/-- Factors of different labels have different keys. -/
theorem distinct_labelTerms {ls : LabelPowers} (hnormal : ls.Normal)
    (h : ∀ e ∈ ls, UnitName.labelName e.1 = e.1) :
    ((ls.map (labelTerm (R := R))).map (·.unit.base)).Nodup := by
  rw [List.map_map]
  refine List.pairwise_map.mpr (hnormal.ordered.imp_of_mem fun he hf hlt hkey => ?_)
  simp only [Function.comp_apply, labelTerm, UnitMeaning.toUnit, h _ he, h _ hf] at hkey
  exact hlt.ne ((String.append_right_inj "'").mp hkey)

theorem distinct_baseTerms {d : Dimension} (hnormal : d.Normal) (htick : d.TickFree) :
    ((baseTerms (R := R) d).map (·.unit.base)).Nodup := by
  have hbases : ((Base.all.zip d.exponents.toList).map (·.1)).Sublist Base.all := by
    rw [List.map_fst_zip (by simp [Base.all])]
  rw [baseTerms, List.map_append]
  refine List.nodup_append.mpr ⟨distinct_baseTerms? hbases,
    distinct_labelTerms hnormal fun e he => labelName_of_mem hnormal htick he, ?_⟩
  rintro key hbase key' hlabel rfl
  obtain ⟨t, ht, rfl⟩ := List.mem_map.mp hbase
  obtain ⟨s, hs, hst⟩ := List.mem_map.mp hlabel
  obtain ⟨e, -, rfl⟩ := List.mem_map.mp hs
  obtain ⟨f, -, hf⟩ := List.mem_filterMap.mp ht
  -- a label's key starts with a tick, that of an entry does not
  obtain ⟨x, hx, -, rfl⟩ := baseTerm?_eq_some hf
  refine UnitMeaning.label_key_ne (VocabularyEntry.entered_of_lookup? hx)
    (UnitName.labelName e.1) (hst.trans ?_)
  exact x.toUnit_base

theorem baseTerms_one : baseTerms Dimension.one = ([] : List (UnitTerm R)) := by
  simp [baseTerms, Dimension.one, Base.all, baseTerm?]

theorem known_ofDimension (d : Dimension) : (ofDimension d : CompoundUnit R).Known :=
  fun t ht => known_baseTerms d t (mem_ordered.mp ht).1

theorem dimension_ofDimension {d : Dimension} (hnormal : d.Normal) (htick : d.TickFree) :
    (ofDimension d : CompoundUnit R).dimension = d := by
  refine Dimension.ext_power (normal_dimension _) hnormal fun x => ?_
  rw [ofDimension_eq, power_dimension_ordered, power_baseTerms hnormal htick]

theorem canonical_ofDimension {d : Dimension} (hnormal : d.Normal) (htick : d.TickFree) :
    (ofDimension d : CompoundUnit R).Canonical := by
  have hdimension : (ofDimension d : CompoundUnit R).dimension = d :=
    dimension_ofDimension hnormal htick
  rw [ofDimension_eq] at hdimension ⊢
  refine canonical_ordered (fun t ht => dimensional_baseTerms ht)
    (distinct_baseTerms hnormal htick) fun hplain => ?_
  have hone : d = Dimension.one := hdimension.symm.trans (isPlain_iff_dimension.mp hplain)
  rw [hone, baseTerms_one]
  rfl

/-- **The unit of a dimension** has that dimension and size one, and it is canonical. -/
theorem ofDimension_spec {d : Dimension} (hnormal : d.Normal) (htick : d.TickFree) :
    Makes d 1 (ofDimension d) 1 := by
  refine ⟨known_ofDimension d, canonical_ofDimension hnormal htick,
    dimension_ofDimension hnormal htick, ?_⟩
  rw [one_mul, ofDimension_eq, size_ordered, size_baseTerms]

/-- **The way to base units** ends in a canonical unit of the same dimension and of size one. -/
theorem toBase_spec {u : CompoundUnit ℝ} (h : u.Known) :
    ∃ w, u.toBase = .ok (w, u.size) ∧ Makes u.dimension 1 w 1 := by
  refine ⟨ofDimension u.dimension, ?_, ofDimension_spec u.normal_dimension h.tickFree⟩
  rw [toBase, factor_eq h]
  rfl

end CompoundUnit

end Ballpark
