import Ballpark.Proofs.RealNumber
import Ballpark.Unit.Name
import Ballpark.Proofs.Dimension
import Mathlib.Data.List.DropRight

/-!
# Facts about the vocabulary

Every name that resolves, resolves to a meaning of one of three kinds (`UnitMeaning.Named`): a label
without its ticks, an entry of the tables, or one of the informal products. For all of them

* the size is above zero (`UnitMeaning.Named.factor_pos`),
* the dimension is in normal form, and its labels carry no ticks (`UnitMeaning.Named.normal`,
  `UnitMeaning.Named.tickFree`),
* the key under which units are merged fixes the dimension (`UnitMeaning.Named.dimension_eq`).

The tables enter only through a few finite checks, so an entry more or less changes none of the proofs.
-/

namespace Ballpark

open Vocabulary

/-! ## The tables -/

/-- Is the size of a unit above zero? -/
def Size.positive : Size → Bool
  | exact value => 0 < value
  | piOver parts => 0 < parts

theorem Vocabulary.baseUnits_positive : ∀ u ∈ baseUnits, u.size.positive = true := by
  decide +kernel

theorem Vocabulary.countingWords_positive : ∀ w ∈ countingWords, 0 < w.2 := by
  decide +kernel

/-- The keys of the tables' units and counting words are all different, and none starts with a tick. -/
theorem Vocabulary.baseKeys_nodup : (baseUnits.map (·.name) ++ countingWords.map (·.1)).Nodup := by
  decide +kernel

theorem Vocabulary.baseKeys_tickFree :
    ∀ key ∈ baseUnits.map (·.name) ++ countingWords.map (·.1), key.toList.head? ≠ some '\'' := by
  decide +kernel

/-- An informal product has a positive scale and a key of its own, without a tick. -/
def AliasTarget.sound (name : String) : AliasTarget → Bool
  | .same _ => true
  | .product scale _ => 0 < scale && name.toList.head? ≠ some '\'' &&
      !(baseUnits.map (·.name) ++ countingWords.map (·.1)).contains name

theorem Vocabulary.aliases_sound : ∀ a ∈ aliases, AliasTarget.sound a.1 a.2 = true := by
  decide +kernel

theorem Size.toScalar_pos {s : Size} (h : s.positive = true) : (0 : ℝ) < s.toScalar := by
  cases s with
  | exact value =>
    rw [toScalar, Scalar.ofRat_real]
    exact_mod_cast of_decide_eq_true h
  | piOver parts =>
    have hparts : (0 : ℝ) < parts := by exact_mod_cast of_decide_eq_true h
    rw [toScalar, Scalar.ofNat_real]
    exact div_pos Real.pi_pos hparts

/-! ## Names without an entry -/

namespace Vocabulary

/-- The forms of a unit. -/
def forms (unit : BaseUnit) : List String :=
  unit.name :: unit.symbols ++ unit.plurals

/-- The names that are entered without a prefix. -/
def plainNames : List String :=
  baseUnits.flatMap forms ++ countingWords.map (·.1)

/-- What a prefix may stand in front of: the forms of some units, and some forms that are no units alone. -/
def prefixable : List String :=
  (baseUnits.filter (·.takesPrefix)).flatMap forms ++ extraPrefixForms.map (·.2)

/-- The names and the symbols of prefixes. -/
def prefixSigns : List String :=
  decimalPrefixes.map (·.name) ++ decimalPrefixes.map (·.symbol) ++ microSigns

/-- A form with a prefix is made of a sign of the prefix and a form of the unit. -/
theorem exists_sign_of_prefixedForms {unit : BaseUnit} (hunit : unit ∈ baseUnits.filter (·.takesPrefix))
    {front : DecimalPrefix} (hfront : front ∈ decimalPrefixes) {e : String × VocabularyEntry}
    (h : e ∈ prefixedForms unit front) : ∃ sign ∈ prefixSigns, ∃ form ∈ prefixable, e.1 = sign ++ form := by
  have hown : ∀ {form}, form ∈ forms unit → form ∈ prefixable := fun h =>
    List.mem_append_left _ (List.mem_flatMap.mpr ⟨unit, hunit, h⟩)
  have hname : front.name ∈ prefixSigns :=
    List.mem_append_left _ (List.mem_append_left _ (List.mem_map_of_mem hfront))
  have hsymbol : front.symbol ∈ prefixSigns :=
    List.mem_append_left _ (List.mem_append_right _ (List.mem_map_of_mem hfront))
  rcases List.mem_append.mp h with h | h
  · obtain ⟨form, hform, rfl⟩ := List.mem_map.mp h
    refine ⟨front.name, hname, form, hown ?_, rfl⟩
    rcases List.mem_append.mp hform with hform | hform
    · refine List.mem_append_left _ ?_
      rcases List.mem_cons.mp hform with rfl | hform
      · exact List.mem_cons_self
      · exact List.mem_cons_of_mem _ (List.mem_filter.mp hform).1
    · exact List.mem_append_right _ hform
  · obtain ⟨sign, hsign, h⟩ := List.mem_flatMap.mp h
    obtain ⟨form, hform, rfl⟩ := List.mem_map.mp h
    refine ⟨sign, ?_, form, ?_, rfl⟩
    · rcases List.mem_cons.mp hsign with rfl | hsign
      · exact hsymbol
      · split at hsign
        · exact List.mem_append_right _ hsign
        · cases hsign
    · rcases List.mem_append.mp hform with h | h
      · exact hown (List.mem_append_left _ (List.mem_cons_of_mem _ h))
      · obtain ⟨x, hx, rfl⟩ := List.mem_map.mp h
        exact List.mem_append_right _ (List.mem_map_of_mem (List.mem_filter.mp hx).1)

/-- How the name of an entry is made. -/
theorem shape_of_lookup? {name : String} {e : VocabularyEntry} (h : lookup? name = some e) :
    name ∈ plainNames ∨ ∃ sign ∈ prefixSigns, ∃ form ∈ prefixable, name = sign ++ form := by
  rw [lookup?, Option.map_eq_some_iff] at h
  obtain ⟨entry, hentry, -⟩ := h
  have hname := List.find?_some hentry
  obtain rfl : entry.1 = name := beq_iff_eq.mp hname
  rcases List.mem_append.mp (List.mem_filter.mp (List.mem_of_find?_eq_some hentry)).1 with h | h
  · left
    rcases List.mem_append.mp h with h | h
    · obtain ⟨unit, hunit, h⟩ := List.mem_flatMap.mp h
      obtain ⟨form, hform, rfl⟩ := List.mem_map.mp h
      exact List.mem_append_left _ (List.mem_flatMap.mpr ⟨unit, hunit, hform⟩)
    · obtain ⟨w, hw, rfl⟩ := List.mem_map.mp h
      exact List.mem_append_right _ (List.mem_map_of_mem hw)
  · obtain ⟨unit, hunit, h⟩ := List.mem_flatMap.mp h
    obtain ⟨front, hfront, h⟩ := List.mem_flatMap.mp h
    exact .inr (exists_sign_of_prefixedForms hunit hfront h)

/-- Is a name neither entered without a prefix, nor made of a sign and a form that takes one? -/
def isUnentered (name : String) : Bool :=
  !plainNames.contains name && prefixSigns.all fun sign =>
    !sign.toList.isPrefixOf name.toList ||
      !prefixable.contains (String.ofList (name.toList.drop sign.toList.length))

/-- The test spares going through all entries. -/
theorem lookup?_of_isUnentered {name : String} (h : isUnentered name = true) : lookup? name = none := by
  rw [isUnentered, Bool.and_eq_true, Bool.not_eq_true', List.contains_eq_mem, decide_eq_false_iff_not,
    List.all_eq_true] at h
  rw [Option.eq_none_iff_forall_ne_some]
  intro e he
  rcases shape_of_lookup? he with hplain | ⟨sign, hsign, form, hform, rfl⟩
  · exact h.1 hplain
  · have hall := h.2 sign hsign
    rw [String.toList_append, List.drop_left, String.ofList_toList, Bool.or_eq_true, Bool.not_eq_true',
      Bool.not_eq_true', List.contains_eq_mem, decide_eq_false_iff_not] at hall
    rcases hall with hfront | hback
    · rw [List.isPrefixOf_iff_prefix.mpr (List.prefix_append _ _)] at hfront
      cases hfront
    · exact hback hform

/-- A symbol of a prefix that `per` starts with leaves `er`, and that is no name. -/
theorem prefixSymbols_per : ∀ s ∈ prefixSymbols,
    (cut? s.1 ['p', 'e', 'r'] ['p', 'e', 'r']).all (· == "er") = true := by
  intro s hs
  rw [prefixSymbols, List.mem_mergeSort] at hs
  revert s
  decide +kernel

end Vocabulary

/-- `per` is the word of a quotient, no unit. -/
theorem UnitName.not_isKnown_per : isKnown "per" = false := by
  have hfront : (decimalPrefixes.findSome? fun p =>
      (cut? p.name (Text.lower "per".toList) "per".toList).map (p.power, ·)) = none := by
    decide +kernel
  have hsingular : singular "er" = "er" ∧ singular "per" = "per" := by decide +kernel
  have halias : alias? "er" = none ∧ alias? "per" = none := by decide +kernel
  have her : lookup? "er" = none := lookup?_of_isUnentered (by decide +kernel)
  have hper : lookup? "per" = none := lookup?_of_isUnentered (by decide +kernel)
  have hnone : ∀ candidate ∈ ["er", singular "er"], lookup? candidate = none ∧ alias? candidate = none := by
    rw [hsingular.1]
    exact List.forall_mem_cons.mpr ⟨⟨her, halias.1⟩, List.forall_mem_singleton.mpr ⟨her, halias.1⟩⟩
  have hprefix : resolveWithPrefix? "per" = none := by
    rw [Option.eq_none_iff_forall_ne_some]
    intro r h
    simp only [resolveWithPrefix?, Option.bind_eq_bind, Option.bind_eq_some_iff] at h
    obtain ⟨⟨power, rest⟩, hsplit, meaning, hmeaning, -⟩ := h
    simp only [splitPrefix?, hfront] at hsplit
    obtain ⟨s, hs, hcut⟩ := List.exists_of_findSome?_eq_some hsplit
    obtain ⟨cut, hcut, hpair⟩ := Option.map_eq_some_iff.mp hcut
    have her := prefixSymbols_per s hs
    rw [show ['p', 'e', 'r'] = "per".toList from rfl, hcut] at her
    cases hpair
    obtain rfl := beq_iff_eq.mp her
    obtain ⟨candidate, hmem, hcandidate⟩ := List.exists_of_findSome?_eq_some hmeaning
    obtain ⟨hlookup, hother⟩ := hnone candidate hmem
    rw [hlookup, hother] at hcandidate
    cases hcandidate
  rw [isKnown, resolve?, halias.2, hsingular.2, hper, hprefix]
  split
  · rename_i h
    exact absurd h (by decide)
  · split <;> rfl

/-! ## Entries -/

namespace VocabularyEntry

/-- Entries that the tables make. -/
inductive Entered : VocabularyEntry → Prop
  | base {unit : BaseUnit} (h : unit ∈ baseUnits) : Entered (.base unit)
  | withPrefix {unit : BaseUnit} (front : DecimalPrefix) (h : unit ∈ baseUnits) :
      Entered (.withPrefix front unit)
  | count {word : String} {factor : Rat} (h : (word, factor) ∈ countingWords) :
      Entered (.count word factor)

theorem entered_of_plainForms {unit : BaseUnit} (h : unit ∈ baseUnits)
    {form : String × VocabularyEntry} (hform : form ∈ plainForms unit) : Entered form.2 := by
  obtain ⟨text, -, rfl⟩ := List.mem_map.mp hform
  exact .base h

theorem entered_of_prefixedForms {unit : BaseUnit} {front : DecimalPrefix} (h : unit ∈ baseUnits)
    {form : String × VocabularyEntry} (hform : form ∈ prefixedForms unit front) : Entered form.2 := by
  rcases List.mem_append.mp hform with hlong | hshort
  · obtain ⟨text, -, rfl⟩ := List.mem_map.mp hlong
    exact .withPrefix front h
  · obtain ⟨sign, -, hsign⟩ := List.mem_flatMap.mp hshort
    obtain ⟨text, -, rfl⟩ := List.mem_map.mp hsign
    exact .withPrefix front h

theorem entered_of_entries {form : String × VocabularyEntry} (h : form ∈ entries) :
    Entered form.2 := by
  rcases List.mem_append.mp (List.mem_filter.mp h).1 with hplain | hlonger
  · rcases List.mem_append.mp hplain with hplain | hcount
    · obtain ⟨unit, hunit, hform⟩ := List.mem_flatMap.mp hplain
      exact entered_of_plainForms hunit hform
    · obtain ⟨word, hword, rfl⟩ := List.mem_map.mp hcount
      exact .count hword
  · obtain ⟨unit, hunit, hform⟩ := List.mem_flatMap.mp hlonger
    obtain ⟨front, -, hform⟩ := List.mem_flatMap.mp hform
    exact entered_of_prefixedForms (List.mem_filter.mp hunit).1 hform

theorem entered_of_lookup? {name : String} {e : VocabularyEntry} (h : lookup? name = some e) :
    Entered e := by
  rw [lookup?, Option.map_eq_some_iff] at h
  obtain ⟨form, hform, rfl⟩ := h
  exact entered_of_entries (List.mem_of_find?_eq_some hform)

theorem Entered.factor_pos {e : VocabularyEntry} (h : e.Entered) :
    0 < (e.toUnit (R := ℝ)).factor := by
  cases h with
  | base hunit => exact Size.toScalar_pos (baseUnits_positive _ hunit)
  | withPrefix front hunit =>
    have hsize := Size.toScalar_pos (baseUnits_positive _ hunit)
    refine mul_pos hsize ?_
    simp only [Scalar.pow_real, Scalar.ofNat_real]
    exact Real.rpow_pos_of_pos (by norm_num) _
  | count hword =>
    simp only [toUnit, Scalar.ofRat_real]
    exact_mod_cast countingWords_positive _ hword

theorem toUnit_dimension {R : Type} [Scalar R] (e : VocabularyEntry) :
    (e.toUnit (R := R)).dimension = e.dimension := by
  cases e <;> rfl

theorem normal (e : VocabularyEntry) : e.dimension.Normal := by
  cases e with
  | base | withPrefix => exact Dimension.normal_ofList _
  | count => exact Dimension.normal_one

/-- Entries have no powers of labels. -/
theorem power_label (e : VocabularyEntry) (l : String) : e.dimension.power (.label l) = 0 := by
  cases e <;> rfl

/-- The key of an entry, as it is for every number type. -/
def key : VocabularyEntry → String
  | base unit | withPrefix _ unit => unit.name
  | count word _ => word

theorem toUnit_base {R : Type} [Scalar R] (e : VocabularyEntry) :
    (e.toUnit (R := R)).base = e.key := by
  cases e <;> rfl

theorem Entered.key_mem {e : VocabularyEntry} (h : e.Entered) :
    e.key ∈ baseUnits.map (·.name) ++ countingWords.map (·.1) := by
  cases h with
  | base hunit | withPrefix _ hunit =>
    exact List.mem_append_left _ (List.mem_map_of_mem hunit)
  | count hword => exact List.mem_append_right _ (List.mem_map_of_mem hword)

/-- The unit of the tables that an entry is a form of; a counting word is of none. -/
def unit? : VocabularyEntry → Option BaseUnit
  | base unit | withPrefix _ unit => some unit
  | count .. => none

theorem dimension_of_unit? (e : VocabularyEntry) :
    e.dimension = (e.unit?.map fun unit => Dimension.ofList unit.powers).getD Dimension.one := by
  cases e <;> rfl

/-- The key of an entry tells which unit it is a form of. -/
theorem Entered.unit?_eq {e f : VocabularyEntry} (he : e.Entered) (hf : f.Entered)
    (hkey : e.key = f.key) : e.unit? = f.unit? := by
  have hnames := (List.nodup_append.mp baseKeys_nodup).1
  have hdisjoint := (List.nodup_append.mp baseKeys_nodup).2.2
  -- a unit and a counting word have different keys, two units of one name are one unit
  cases he with
  | base hunit | withPrefix _ hunit =>
    cases hf with
    | base hunit' | withPrefix _ hunit' =>
      exact congrArg some (List.inj_on_of_nodup_map hnames hunit hunit' hkey)
    | count hword =>
      exact absurd hkey (hdisjoint _ (List.mem_map_of_mem hunit) _ (List.mem_map_of_mem hword))
  | count hword =>
    cases hf with
    | base hunit | withPrefix _ hunit =>
      exact absurd hkey.symm (hdisjoint _ (List.mem_map_of_mem hunit) _ (List.mem_map_of_mem hword))
    | count => rfl

theorem Entered.dimension_eq {e f : VocabularyEntry} (he : e.Entered) (hf : f.Entered)
    (hkey : e.key = f.key) : e.dimension = f.dimension := by
  rw [dimension_of_unit?, dimension_of_unit?, he.unit?_eq hf hkey]

end VocabularyEntry

/-! ## Meanings -/

namespace UnitMeaning

/-- Meanings that names resolve to. -/
inductive Named : UnitMeaning → Prop
  /-- a label without its ticks -/
  | label {name : String} (h : UnitName.labelName name = name) : Named (.label name)
  | entry {e : VocabularyEntry} (h : e.Entered) : Named (.entry e)
  /-- an informal product, under its own name -/
  | product {name : String} {scale : Rat} {factors : List (VocabularyEntry × Int)}
      (h : alias? name = some (.product name scale factors)) : Named (.product name scale factors)

end UnitMeaning

theorem UnitName.labelName_labelName (name : String) : labelName (labelName name) = labelName name := by
  simp [labelName, List.dropWhile_idempotent _ _]

theorem Vocabulary.named_of_alias? {name : String} {m : UnitMeaning} (h : alias? name = some m) :
    m.Named := by
  have h' := h
  rw [alias?] at h'
  split at h'
  · cases h'
  · rw [Option.map_eq_some_iff] at h'
    obtain ⟨e, he, rfl⟩ := h'
    exact .entry (VocabularyEntry.entered_of_lookup? he)
  · cases h'
    exact .product h

theorem UnitName.named_of_resolveWithPrefix? {name : String} {r : ResolvedName}
    (h : resolveWithPrefix? name = some r) : r.meaning.Named := by
  simp only [resolveWithPrefix?, Option.bind_eq_bind, Option.bind_eq_some_iff] at h
  obtain ⟨⟨power, rest⟩, -, meaning, hmeaning, hr⟩ := h
  cases hr
  obtain ⟨candidate, -, hcandidate⟩ := List.exists_of_findSome?_eq_some hmeaning
  split at hcandidate
  · rename_i found hfound
    split at hcandidate
    · cases hcandidate
    · cases hcandidate
      rcases Option.or_eq_some_iff.mp hfound with hentry | ⟨-, halias⟩
      · rw [Option.map_eq_some_iff] at hentry
        obtain ⟨e, he, rfl⟩ := hentry
        exact .entry (VocabularyEntry.entered_of_lookup? he)
      · exact named_of_alias? halias
  · cases hcandidate

/-- Names resolve to meanings of the three kinds only. -/
theorem UnitName.named_of_resolve? {name : String} {r : ResolvedName} (h : resolve? name = some r) :
    r.meaning.Named := by
  rw [resolve?] at h
  split at h
  · cases h
    exact .label (labelName_labelName name)
  split at h
  · cases h
  split at h
  · rename_i halias
    cases h
    exact named_of_alias? halias
  split at h
  · rename_i hentry
    cases h
    exact .entry (VocabularyEntry.entered_of_lookup? hentry)
  split at h
  · rename_i hentry
    cases h
    exact .entry (VocabularyEntry.entered_of_lookup? hentry)
  · exact named_of_resolveWithPrefix? h

namespace UnitMeaning

theorem mem_aliases_of_alias? {name : String} {scale : Rat}
    {factors : List (VocabularyEntry × Int)} (h : alias? name = some (.product name scale factors)) :
    ∃ written, (name, AliasTarget.product scale written) ∈ aliases ∧
      factors = written.filterMap fun f => (lookup? f.1).map (·, f.2) := by
  rw [alias?] at h
  split at h
  · cases h
  · rw [Option.map_eq_some_iff] at h
    obtain ⟨e, -, he⟩ := h
    cases he
  · rename_i key scale' written hfind
    have hkey : key = name := by simpa using List.find?_some hfind
    subst hkey
    cases h
    exact ⟨written, List.mem_of_find?_eq_some hfind, rfl⟩

theorem product_sound {name : String} {scale : Rat} {factors : List (VocabularyEntry × Int)}
    (h : alias? name = some (.product name scale factors)) :
    0 < scale ∧ name.toList.head? ≠ some '\'' ∧
      name ∉ baseUnits.map (·.name) ++ countingWords.map (·.1) := by
  obtain ⟨written, hmem, -⟩ := mem_aliases_of_alias? h
  have hsound := aliases_sound _ hmem
  simp only [AliasTarget.sound, Bool.and_eq_true, decide_eq_true_eq, Bool.not_eq_true',
    List.contains_eq_mem, decide_eq_false_iff_not] at hsound
  exact ⟨hsound.1.1, hsound.1.2, hsound.2⟩

theorem entered_of_product {name : String} {scale : Rat} {factors : List (VocabularyEntry × Int)}
    (h : alias? name = some (.product name scale factors)) : ∀ f ∈ factors, f.1.Entered := by
  obtain ⟨written, -, rfl⟩ := mem_aliases_of_alias? h
  intro f hf
  obtain ⟨w, -, hw⟩ := List.mem_filterMap.mp hf
  rw [Option.map_eq_some_iff] at hw
  obtain ⟨e, he, rfl⟩ := hw
  exact VocabularyEntry.entered_of_lookup? he

theorem productFactor_pos {factors : List (VocabularyEntry × Int)}
    (h : ∀ f ∈ factors, f.1.Entered) : 0 < productFactor (R := ℝ) factors := by
  suffices hstep : ∀ x : ℝ, 0 < x → 0 < factors.foldl
      (fun x f => x * Scalar.pow (f.1.toUnit (R := ℝ)).factor (Scalar.ofInt f.2)) x by
    exact hstep _ (by simp)
  induction factors with
  | nil => exact fun x hx => hx
  | cons f rest ih =>
    intro x hx
    have hf := (h f List.mem_cons_self).factor_pos
    exact ih (fun g hg => h g (List.mem_cons_of_mem _ hg)) _
      (mul_pos hx (Real.rpow_pos_of_pos hf _))

/-- The size of every unit that a name stands for is above zero. -/
theorem Named.factor_pos {m : UnitMeaning} (h : m.Named) : 0 < (m.toUnit (R := ℝ)).factor := by
  cases h with
  | label => simp [toUnit]
  | entry he => exact he.factor_pos
  | product halias =>
    have hscale := (product_sound halias).1
    refine mul_pos (productFactor_pos (entered_of_product halias)) ?_
    rw [Scalar.ofRat_real]
    exact_mod_cast hscale

theorem toUnit_dimension {R : Type} [Scalar R] (m : UnitMeaning) :
    (m.toUnit (R := R)).dimension = m.dimension := by
  cases m with
  | entry e => exact e.toUnit_dimension
  | label | product => rfl

theorem normal_foldl (factors : List (VocabularyEntry × Int)) {d : Dimension} (h : d.Normal) :
    (factors.foldl (fun d f => d.multiply (f.1.dimension.pow f.2)) d).Normal := by
  induction factors generalizing d with
  | nil => exact h
  | cons f rest ih => exact ih (h.multiply _)

theorem normal (m : UnitMeaning) : m.dimension.Normal := by
  cases m with
  | label name => exact Dimension.normal_label name
  | entry e => exact e.normal
  | product name scale factors => exact normal_foldl factors Dimension.normal_one

end UnitMeaning

/-- A dimension whose labels carry no ticks. -/
def Dimension.TickFree (d : Dimension) : Prop :=
  ∀ l, d.power (.label l) ≠ 0 → UnitName.labelName l = l

namespace Dimension.TickFree

theorem one : Dimension.one.TickFree :=
  fun _ h => absurd (power_one _) h

theorem multiply {a b : Dimension} (ha : a.TickFree) (hb : b.TickFree) :
    (a.multiply b).TickFree := by
  intro l hl
  rw [power_multiply] at hl
  by_cases hzero : a.power (.label l) = 0
  · exact hb l fun hb' => hl (by rw [hzero, hb', add_zero])
  · exact ha l hzero

theorem pow {a : Dimension} (ha : a.TickFree) (k : Rat) : (a.pow k).TickFree := by
  intro l hl
  rw [power_pow] at hl
  exact ha l fun hzero => hl (by rw [hzero, zero_mul])

end Dimension.TickFree

namespace UnitMeaning

theorem tickFree_foldl (factors : List (VocabularyEntry × Int)) {d : Dimension} (h : d.TickFree) :
    (factors.foldl (fun d f => d.multiply (f.1.dimension.pow f.2)) d).TickFree := by
  induction factors generalizing d with
  | nil => exact h
  | cons f rest ih =>
    have hf : f.1.dimension.TickFree := fun l hl => absurd (f.1.power_label l) hl
    exact ih (h.multiply (hf.pow _))

theorem Named.tickFree {m : UnitMeaning} (h : m.Named) : m.dimension.TickFree := by
  cases h with
  | @label name hname =>
    intro l hl
    have hpower : (Dimension.label name).power (.label l) = if name = l then 1 else 0 := by
      simp [Dimension.power, Dimension.label]
    by_cases hl' : name = l
    · rw [← hl', hname]
    · simp only [dimension, hpower, if_neg hl'] at hl
      exact absurd rfl hl
  | @entry e _ => exact fun l hl => absurd (e.power_label l) hl
  | product => exact tickFree_foldl _ Dimension.TickFree.one

/-- The key that units are merged by, as it is for every number type. -/
def key : UnitMeaning → String
  | label name => "'" ++ name
  | entry e => e.key
  | product name .. => name

theorem toUnit_base {R : Type} [Scalar R] (m : UnitMeaning) :
    (m.toUnit (R := R)).base = m.key := by
  cases m with
  | entry e => exact e.toUnit_base
  | label | product => rfl

theorem tick_head (name : String) : ("'" ++ name).toList.head? = some '\'' := by
  rw [String.toList_append]
  rfl

theorem label_key_ne {e : VocabularyEntry} (h : e.Entered) (l : String) : "'" ++ l ≠ e.key :=
  fun heq => baseKeys_tickFree _ h.key_mem (heq ▸ tick_head l)

theorem product_key_ne_label {name : String} {scale : Rat} {factors : List (VocabularyEntry × Int)}
    (h : alias? name = some (.product name scale factors)) (l : String) : name ≠ "'" ++ l :=
  fun heq => (product_sound h).2.1 (heq ▸ tick_head l)

theorem product_key_ne_entry {name : String} {scale : Rat} {factors : List (VocabularyEntry × Int)}
    (h : alias? name = some (.product name scale factors)) {e : VocabularyEntry} (he : e.Entered) :
    name ≠ e.key :=
  fun heq => (product_sound h).2.2 (heq ▸ he.key_mem)

/-- **The key fixes the dimension.** Named units that share a key differ by a number alone. -/
theorem Named.dimension_eq {m n : UnitMeaning} (hm : m.Named) (hn : n.Named) (hkey : m.key = n.key) :
    m.dimension = n.dimension := by
  cases hm with
  | label hl =>
    cases hn with
    | label hl' => rw [(String.append_right_inj "'").mp hkey]
    | entry he => exact absurd hkey (label_key_ne he _)
    | product hp => exact absurd hkey.symm (product_key_ne_label hp _)
  | entry he =>
    cases hn with
    | label hl => exact absurd hkey.symm (label_key_ne he _)
    | entry he' => exact he.dimension_eq he' hkey
    | product hp => exact absurd hkey.symm (product_key_ne_entry hp he)
  | product hp =>
    cases hn with
    | label hl => exact absurd hkey (product_key_ne_label hp _)
    | entry he => exact absurd hkey (product_key_ne_entry hp he)
    | product hp' =>
      -- one name has one meaning
      simp only [key] at hkey
      subst hkey
      rw [Option.some.inj (hp.symm.trans hp')]

end UnitMeaning

/-! ## The units of the base quantities -/

/-- Is an entry the unit of a base quantity, of size one? -/
def VocabularyEntry.measures (b : Base) : VocabularyEntry → Bool
  | base unit => unit.powers = [(b, 1)] && unit.size = .exact 1
  | withPrefix front unit => unit.powers = [(b, 1)] && unit.size = .exact (10 ^ (-front.power))
  | count .. => false

theorem Vocabulary.symbols_measure : ∀ b ∈ Base.all, (lookup? b.symbol).any (·.measures b) = true := by
  decide +kernel

theorem Vocabulary.symbolKeys_nodup : (Base.all.map fun b => (lookup? b.symbol).map (·.key)).Nodup := by
  decide +kernel

theorem VocabularyEntry.factor_of_measures {b : Base} {e : VocabularyEntry}
    (h : e.measures b = true) : (e.toUnit (R := ℝ)).factor = 1 := by
  cases e with
  | base unit =>
    simp only [measures, Bool.and_eq_true, decide_eq_true_eq] at h
    simp [toUnit, h.2, Size.toScalar]
  | withPrefix front unit =>
    simp only [measures, Bool.and_eq_true, decide_eq_true_eq] at h
    simp only [toUnit, h.2, Size.toScalar, Scalar.ofRat_real, Scalar.pow_real, Scalar.ofNat_real,
      Scalar.ofInt_real, Real.rpow_intCast]
    push_cast
    rw [← zpow_add₀ (by norm_num), neg_add_cancel, zpow_zero]
  | count => cases h

theorem VocabularyEntry.dimension_of_measures {b : Base} {e : VocabularyEntry}
    (h : e.measures b = true) : e.dimension = Dimension.ofList [(b, 1)] := by
  cases e with
  | base unit | withPrefix _ unit =>
    simp only [measures, Bool.and_eq_true, decide_eq_true_eq] at h
    rw [dimension, h.1]
  | count => cases h

/-- Every base quantity is measured in an entry of size one. -/
theorem Vocabulary.lookup?_symbol (b : Base) :
    ∃ e, lookup? b.symbol = some e ∧ e.measures b = true := by
  have hany := symbols_measure b b.mem_all
  rcases hlookup : lookup? b.symbol with _ | e
  · rw [hlookup] at hany
    cases hany
  · rw [hlookup] at hany
    exact ⟨e, rfl, hany⟩

end Ballpark
