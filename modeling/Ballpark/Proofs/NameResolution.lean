import Ballpark.Proofs.NameLetters

/-!
# Coherent names

A name is looked up in two tables, and the order is not the same everywhere. A whole name is informal
before it is an entry. A plural is only looked up as the plural of an entry, and behind a prefix an entry
comes before an informal name. So two kinds of symbols, shown by the value that a prefixed name gives, do
not stand for its unit when they are written by themselves (`UnitName.names_coherent`):

* an entry whose name is taken by an informal name: `kt` is a kilotonne behind a prefix and a knot
  otherwise, `pt` a picotonne and a pint (`UnitName.IsTaken`);
* the plural of an informal name that neither table has: `kiloqts` are a thousand quarts, shown as `qts`,
  which is no name (`UnitName.IsInformalPlural`).

The first kind also parts a plural from its singular: `pts` are picotonnes, `pt` is a pint.
-/

namespace Ballpark

open Vocabulary

/-! ## The tables -/

/-- Does an informal name stand for something with a dimension? -/
def AliasTarget.hasDimension : AliasTarget → Bool
  | .same other => !(countingWords.map (·.1)).contains other
  | .product _ factors =>
    !(UnitMeaning.productDimension (factors.filterMap fun f => (lookup? f.1).map (·, f.2))).isOne

namespace Vocabulary

/-! ### A test for many names -/

/-- A number for a text. Texts of different numbers are different. -/
def signature (text : List Char) : Nat :=
  text.foldl (fun n c => 131 * n + c.toNat) 0 % 65521

/-- The numbers of some names, as the bits of one. -/
def signatures (names : List String) : Nat :=
  names.foldr (fun name bits => bits ||| 1 <<< signature name.toList) 0

theorem testBit_signatures {names : List String} {name : String} (h : name ∈ names) :
    (signatures names).testBit (signature name.toList) = true := by
  induction names with
  | nil => cases h
  | cons first rest ih =>
    rw [signatures, List.foldr_cons, Nat.testBit_or, ← signatures]
    rcases List.mem_cons.mp h with rfl | h
    · rw [Nat.shiftLeft_eq, one_mul, Nat.testBit_two_pow_self, Bool.or_true]
    · rw [ih h, Bool.true_or]

/-- Has a name another number than all names without a prefix, however it is split? -/
def isApart (name : String) : Bool :=
  let text := name.toList
  !(signatures plainNames).testBit (signature text) && (List.range (text.length + 1)).all fun k =>
    !(signatures prefixSigns).testBit (signature (text.take k)) ||
      !(signatures prefixable).testBit (signature (text.drop k))

/-- No name is compared with all others, which a test of all informal names could not afford. -/
theorem lookup?_of_isApart {name : String} (h : isApart name = true) : lookup? name = none := by
  rw [isApart, Bool.and_eq_true, List.all_eq_true] at h
  rw [Option.eq_none_iff_forall_ne_some]
  intro e he
  rcases shape_of_lookup? he with hplain | ⟨sign, hsign, form, hform, rfl⟩
  · rw [testBit_signatures hplain] at h
    cases h.1
  · have hsplit : sign.toList.length ∈ List.range ((sign ++ form).toList.length + 1) := by
      rw [String.toList_append, List.length_append, List.mem_range]
      omega
    have hparts := h.2 _ hsplit
    rw [String.toList_append, List.take_left, List.drop_left, testBit_signatures hsign,
      testBit_signatures hform] at hparts
    cases hparts

/-! ### What is checked name by name -/

/-- What is used of the tables. -/
structure TablesAgree : Prop where
  unitsHaveDimension : ∀ u ∈ baseUnits, (Dimension.ofList u.powers).isOne = false
  countsSingular : ∀ w ∈ countingWords, singular w.1 = w.1
  /-- an informal name with the ending of a plural has a dimension, or it is one of two numbers -/
  aliasesHaveDimension : ∀ a ∈ aliases,
    singular a.1 = a.1 ∨ AliasTarget.hasDimension a.2 = true ∨ a.1 ∈ ["gross", "pairs"]
  numbersSingular : ∀ name ∈ ["gross", "pairs"], isUnentered (singular name) = true ∧
    (alias? (singular name)).all (·.dimension.isOne) = true
  reservedSingular : ∀ name ∈ reservedNames, singular name = name
  aliasesFree : ∀ a ∈ aliases, reservedNames.contains a.1 = false
  prefixesScale : ∀ p ∈ decimalPrefixes, p.power ≠ 0
  /-- the informal names that are entries, too -/
  aliasesEntered : ∀ a ∈ aliases,
    a.1 ∈ ["ms", "us", "ns"] ∨ a.1 ∈ ["kt", "pt"] ∨ isApart a.1 = true
  sameEntries : ∀ name ∈ ["ms", "us", "ns"], alias? name = (lookup? name).map .entry
  otherEntries : ∀ name ∈ ["kt", "pt"], ∃ e ∈ lookup? name, ∃ m ∈ alias? name, m.key ≠ e.key
  /-- their plurals: one is informal itself -/
  otherPlurals : (alias? "kts").isSome = true ∧ singular "pts" = "pt" ∧
    ∀ p ∈ irregularPlurals, p.2 ≠ "kt" ∧ p.2 ≠ "pt"

theorem tablesAgree : TablesAgree where
  unitsHaveDimension := by decide +kernel
  countsSingular := by decide +kernel
  aliasesHaveDimension := by decide +kernel
  numbersSingular := by decide +kernel
  reservedSingular := by decide +kernel
  aliasesFree := by decide +kernel
  prefixesScale := by decide +kernel
  aliasesEntered := by decide +kernel
  sameEntries := by decide +kernel
  otherEntries := by decide +kernel
  otherPlurals := by decide +kernel

/-! ### A name in the tables, and a symbol behind a prefix -/

/-- What the tables have under a name, where an entry comes before an informal name. -/
def tabled? (name : String) : Option UnitMeaning :=
  ((lookup? name).map .entry).or (alias? name)

end Vocabulary

/-- What a symbol means behind a prefix: what the tables have under it, if it has a dimension, and what
they have under its singular otherwise. -/
inductive UnitName.BehindPrefix (symbol : String) : UnitMeaning → Prop
  | whole {m : UnitMeaning} (h : tabled? symbol = some m) (hdimension : m.dimension.isOne = false) :
      UnitName.BehindPrefix symbol m
  | plural {m : UnitMeaning} (hwhole : ∀ n, tabled? symbol = some n → n.dimension.isOne = true)
      (h : tabled? (singular symbol) = some m) (hdimension : m.dimension.isOne = false) :
      UnitName.BehindPrefix symbol m

namespace Vocabulary

/-! ### What the tables hold -/

/-- The name of a counting word is the word. -/
theorem mem_countingWords {name word : String} {factor : Rat}
    (h : lookup? name = some (.count word factor)) : (name, factor) ∈ countingWords := by
  rw [lookup?, Option.map_eq_some_iff] at h
  obtain ⟨entry, hentry, hcount⟩ := h
  have hname := List.find?_some hentry
  obtain rfl : entry.1 = name := beq_iff_eq.mp hname
  rcases List.mem_append.mp (List.mem_filter.mp (List.mem_of_find?_eq_some hentry)).1 with h | h
  · rcases List.mem_append.mp h with h | h
    · obtain ⟨unit, -, h⟩ := List.mem_flatMap.mp h
      obtain ⟨form, -, rfl⟩ := List.mem_map.mp h
      cases hcount
    · obtain ⟨w, hw, rfl⟩ := List.mem_map.mp h
      cases hcount
      exact hw
  · obtain ⟨unit, -, h⟩ := List.mem_flatMap.mp h
    obtain ⟨front, -, h⟩ := List.mem_flatMap.mp h
    rcases List.mem_append.mp h with h | h
    · obtain ⟨form, -, rfl⟩ := List.mem_map.mp h
      cases hcount
    · obtain ⟨sign, -, h⟩ := List.mem_flatMap.mp h
      obtain ⟨form, -, rfl⟩ := List.mem_map.mp h
      cases hcount

/-- An entry without a dimension is a counting word. -/
theorem count_of_isOne {name : String} {e : VocabularyEntry} (h : lookup? name = some e)
    (hone : e.dimension.isOne = true) : ∃ factor, (name, factor) ∈ countingWords := by
  have hunit : ∀ unit ∈ baseUnits, (Dimension.ofList unit.powers).isOne ≠ true := fun unit hunit =>
    ne_true_of_eq_false (tablesAgree.unitsHaveDimension unit hunit)
  cases VocabularyEntry.entered_of_lookup? h with
  | base hmem | withPrefix _ hmem => exact absurd hone (hunit _ hmem)
  | count => exact ⟨_, mem_countingWords h⟩

/-- An informal name without a dimension has no ending, or it is one of two numbers. -/
theorem singular_of_isOne {name : String} {m : UnitMeaning} (h : alias? name = some m)
    (hone : m.dimension.isOne = true) : singular name = name ∨ name ∈ ["gross", "pairs"] := by
  rw [alias?] at h
  rcases hfind : aliases.find? (·.1 == name) with _ | ⟨key, target⟩
  · rw [hfind] at h
    cases h
  have hkey := List.find?_some hfind
  obtain rfl : key = name := beq_iff_eq.mp hkey
  -- an informal name with a dimension is no other name for a number, nor a product
  have hnumber : ¬AliasTarget.hasDimension target = true := by
    intro hdimension
    cases target with
    | same other =>
      rw [hfind] at h
      obtain ⟨e, he, rfl⟩ := Option.map_eq_some_iff.mp h
      obtain ⟨factor, hword⟩ := count_of_isOne he hone
      have hnot : other ∉ countingWords.map (·.1) := by
        simpa [AliasTarget.hasDimension] using hdimension
      exact hnot (List.mem_map_of_mem hword)
    | product scale factors =>
      rw [hfind] at h
      cases h
      have hfalse : (!true) = true := (congrArg Bool.not hone).symm.trans hdimension
      cases hfalse
  have halias := tablesAgree.aliasesHaveDimension _ (List.mem_of_find?_eq_some hfind)
  exact halias.imp_right (·.resolve_left hnumber)

/-! ### Plural endings -/

theorem free_of_lookup? {name : String} {e : VocabularyEntry} (h : lookup? name = some e) :
    reservedNames.contains name = false := by
  rw [lookup?, Option.map_eq_some_iff] at h
  obtain ⟨entry, hentry, -⟩ := h
  have hname := List.find?_some hentry
  obtain rfl : entry.1 = name := beq_iff_eq.mp hname
  exact Bool.not_eq_true' _ ▸ (List.mem_filter.mp (List.mem_of_find?_eq_some hentry)).2

theorem free_of_singular {name : String} {e : VocabularyEntry} (h : lookup? (singular name) = some e) :
    reservedNames.contains name = false := by
  by_contra hreserved
  have hmem : name ∈ reservedNames := by simpa using hreserved
  have hfree := free_of_lookup? h
  rw [tablesAgree.reservedSingular name hmem] at hfree
  exact hreserved hfree

theorem tabled?_of_lookup? {name : String} {e : VocabularyEntry} (h : lookup? name = some e) :
    tabled? name = some (.entry e) := by
  rw [tabled?, h]
  rfl

theorem tabled?_of_none {name : String} (h : lookup? name = none) : tabled? name = alias? name := by
  rw [tabled?, h]
  rfl

/-- Without its plural ending, a name without a dimension has none, either. -/
theorem isOne_of_singular {name : String} {m n : UnitMeaning} (hm : tabled? name = some m)
    (hone : m.dimension.isOne = true) (hn : tabled? (singular name) = some n) :
    n.dimension.isOne = true := by
  have hsame : singular name = name → n.dimension.isOne = true := by
    intro hsame
    rw [hsame, hm] at hn
    cases hn
    exact hone
  rcases hentry : lookup? name with _ | e
  · rw [tabled?_of_none hentry] at hm
    rcases singular_of_isOne hm hone with h | h
    · exact hsame h
    · obtain ⟨hnone, hinformal⟩ := tablesAgree.numbersSingular name h
      rw [tabled?_of_none (lookup?_of_isUnentered hnone)] at hn
      rwa [hn, Option.all_some] at hinformal
  · rw [tabled?_of_lookup? hentry] at hm
    cases hm
    obtain ⟨factor, hword⟩ := count_of_isOne hentry hone
    exact hsame (tablesAgree.countsSingular (name, factor) hword)

end Vocabulary

/-! ## Where a name is found -/

namespace UnitName

section Whole

variable {name : String} {m : UnitMeaning} {e : VocabularyEntry}

theorem resolve?_of_alias? (h : alias? name = some m) : resolve? name = some ⟨m, none, name⟩ := by
  obtain ⟨target, hmem⟩ := mem_aliases h
  have hfree : ¬reservedNames.contains name = true := ne_true_of_eq_false (tablesAgree.aliasesFree _ hmem)
  rw [resolve?, if_neg (not_tick_of_isLettered (isLettered_of_alias? h)), if_neg hfree, h]

theorem resolve?_of_lookup? (halias : alias? name = none) (h : lookup? name = some e) :
    resolve? name = some ⟨.entry e, none, name⟩ := by
  rw [resolve?, if_neg (not_tick_of_isLettered (isLettered_of_lookup? h)),
    if_neg (ne_true_of_eq_false (free_of_lookup? h)), halias, h]

theorem resolve?_of_singular (halias : alias? name = none) (hentry : lookup? name = none)
    (h : lookup? (singular name) = some e) : resolve? name = some ⟨.entry e, none, name⟩ := by
  rw [resolve?, if_neg (not_tick_of_isLettered (isLettered_of_singular (isLettered_of_lookup? h))),
    if_neg (ne_true_of_eq_false (free_of_singular h)), halias, hentry, h]

end Whole

/-- A name shows itself, or it is read behind a prefix. -/
theorem symbol_or_prefix {name : String} {r : ResolvedName} (h : resolve? name = some r) :
    r.power = none ∧ r.symbol = name ∨ resolveWithPrefix? name = some r := by
  rw [resolve?] at h
  split at h
  · cases h
    exact .inl ⟨rfl, rfl⟩
  split at h
  · cases h
  split at h
  · cases h
    exact .inl ⟨rfl, rfl⟩
  split at h
  · cases h
    exact .inl ⟨rfl, rfl⟩
  split at h
  · cases h
    exact .inl ⟨rfl, rfl⟩
  · exact .inr h

/-- A prefix is cut off a name: a sign of it that is not empty, and its power is not zero. -/
theorem of_splitPrefix? {name rest : String} {power : Int}
    (h : splitPrefix? name = some (power, rest)) :
    power ≠ 0 ∧ ∃ sign ∈ prefixSigns, ∃ text, cut? sign text name.toList = some rest := by
  rw [splitPrefix?] at h
  split at h
  · rename_i found hfound
    -- a name that begins with a whole prefix
    obtain rfl := Option.some.inj h
    obtain ⟨p, hp, hcut⟩ := List.exists_of_findSome?_eq_some hfound
    obtain ⟨cut, hcut, hpair⟩ := Option.map_eq_some_iff.mp hcut
    cases hpair
    have hsign : p.name ∈ prefixSigns :=
      List.mem_append_left _ (List.mem_append_left _ (List.mem_map_of_mem hp))
    exact ⟨tablesAgree.prefixesScale p hp, p.name, hsign, _, hcut⟩
  · -- a name that begins with a symbol, one of the prefixes or one of those for a millionth
    obtain ⟨s, hs, hcut⟩ := List.exists_of_findSome?_eq_some h
    obtain ⟨cut, hcut, hpair⟩ := Option.map_eq_some_iff.mp hcut
    cases hpair
    rw [prefixSymbols, List.mem_mergeSort, List.mem_append] at hs
    rcases hs with hs | hs
    · obtain ⟨p, hp, rfl⟩ := List.mem_map.mp hs
      have hsign : p.symbol ∈ prefixSigns :=
        List.mem_append_left _ (List.mem_append_right _ (List.mem_map_of_mem hp))
      exact ⟨tablesAgree.prefixesScale p hp, p.symbol, hsign, _, hcut⟩
    · obtain ⟨sign, hsign, rfl⟩ := List.mem_map.mp hs
      exact ⟨(by decide : (-6 : Int) ≠ 0), sign, List.mem_append_right _ hsign, _, hcut⟩

/-- Behind a prefix, the value is scaled. -/
theorem of_resolveWithPrefix? {name : String} {r : ResolvedName} (h : resolveWithPrefix? name = some r) :
    (∃ power, r.power = some power ∧ power ≠ 0) ∧ BehindPrefix r.symbol r.meaning := by
  simp only [resolveWithPrefix?, Option.bind_eq_bind, Option.bind_eq_some_iff] at h
  obtain ⟨⟨power, rest⟩, hsplit, meaning, hmeaning, hr⟩ := h
  cases hr
  refine ⟨⟨power, rfl, ?_⟩, ?_⟩
  · exact (of_splitPrefix? hsplit).1
  · -- the entry behind the prefix, if it has a dimension, in the words of the search
    have hpicked : ([rest, singular rest].findSome? fun candidate =>
        (tabled? candidate).filter fun m => !m.dimension.isOne) = some meaning := by
      rw [← hmeaning]
      congr 1
      funext candidate
      rw [tabled?]
      split
      · rename_i n hn
        rw [hn, Option.filter_some]
        cases n.dimension.isOne <;> rfl
      · rename_i hn
        rw [hn]
        rfl
    rw [List.findSome?_cons] at hpicked
    split at hpicked
    · -- the rest is an entry by itself, or else its singular is
      rename_i n hn
      obtain ⟨hn, hdimension⟩ := Option.filter_eq_some_iff.mp (hn.trans hpicked)
      exact .whole hn (Bool.not_eq_true' _ ▸ hdimension)
    · rename_i hnone
      rw [List.findSome?_singleton] at hpicked
      obtain ⟨hn, hdimension⟩ := Option.filter_eq_some_iff.mp hpicked
      refine .plural (fun n htabled => ?_) hn (Bool.not_eq_true' _ ▸ hdimension)
      simpa using Option.filter_eq_none_iff.mp hnone n htabled

/-- Behind a prefix, the rest of the name is shown. -/
theorem symbol_of_resolveWithPrefix? {name : String} {r : ResolvedName}
    (h : resolveWithPrefix? name = some r) :
    ∃ k, 0 < k ∧ k < name.toList.length ∧ r.symbol = String.ofList (name.toList.drop k) := by
  simp only [resolveWithPrefix?, Option.bind_eq_bind, Option.bind_eq_some_iff] at h
  obtain ⟨⟨power, rest⟩, hsplit, meaning, -, hr⟩ := h
  cases hr
  obtain ⟨-, sign, hsign, text, hcut⟩ := of_splitPrefix? hsplit
  rw [cut?] at hcut
  split at hcut
  · rename_i hlonger
    have hsome := (isName_of_isLettered (namesLettered.signs sign hsign)).ne_nil
    have hpos := List.length_pos_iff.mpr hsome
    rw [String.length_toList] at hpos
    exact ⟨sign.length, hpos, of_decide_eq_true (Bool.and_eq_true_iff.mp hlonger).2,
      (Option.some.inj hcut).symm⟩
  · cases hcut

/-- A name that shows itself and has no tick is a name of letters. -/
theorem isLettered_of_resolve? {name : String} {r : ResolvedName} (h : resolve? name = some r)
    (hsymbol : r.symbol = name) (hplain : name.toList.head? ≠ some '\'') : isLettered name = true := by
  rw [resolve?, if_neg (by simpa using hplain)] at h
  split at h
  · cases h
  split at h
  · rename_i hm
    exact isLettered_of_alias? hm
  split at h
  · rename_i he
    exact isLettered_of_lookup? he
  split at h
  · rename_i he
    exact isLettered_of_singular (isLettered_of_lookup? he)
  · -- behind a prefix less than the name is shown
    obtain ⟨k, hpos, hlonger, hrest⟩ := symbol_of_resolveWithPrefix? h
    have hlength := congrArg (·.toList.length) (hsymbol.symm.trans hrest)
    simp only [String.toList_ofList, List.length_drop] at hlength
    omega

/-- A name that the tables do not have, behind a prefix that they have the rest of. -/
theorem resolve?_of_prefix {name rest : String} {power : Int} {m : UnitMeaning}
    (hhead : isLettered name = true) (hfree : reservedNames.contains name = false)
    (halias : alias? name = none) (hentry : lookup? name = none)
    (hsingular : lookup? (singular name) = none) (hsplit : splitPrefix? name = some (power, rest))
    (h : tabled? rest = some m) (hdimension : m.dimension.isOne = false) :
    resolve? name = some ⟨m, some power, rest⟩ := by
  have hrest : ((lookup? rest).map UnitMeaning.entry).or (alias? rest) = some m := h
  rw [resolve?, if_neg (not_tick_of_isLettered hhead), if_neg (ne_true_of_eq_false hfree), halias, hentry,
    hsingular]
  simp only [resolveWithPrefix?, hsplit, Option.bind_eq_bind, Option.bind_some, List.findSome?_cons, hrest,
    hdimension, Bool.false_eq_true, if_false]

/-! ## Coherence -/

/-- A name stands for a unit with a scale, and it shows a symbol. -/
def StandsFor (name : String) (unit : NamedUnit ℝ) (scale : ℝ) (symbol : String) : Prop :=
  ∃ r, resolve? name = some r ∧ r.meaning.toUnit = unit ∧ r.scale = scale ∧ r.symbol = symbol

/-- An entry whose name is taken by an informal name of another unit. -/
def IsTaken (name : String) : Prop :=
  ∃ e m, lookup? name = some e ∧ alias? name = some m ∧ m.toUnit ≠ e.toUnit (R := ℝ)

/-- The plural of an entry, which is no name of the tables itself. -/
structure IsPlural (name : String) : Prop where
  notInformal : alias? name = none
  notEntered : lookup? name = none
  entered : (lookup? (singular name)).isSome

/-- The plural of an informal name, which is neither a name of the tables nor the plural of an entry. -/
structure IsInformalPlural (name : String) : Prop where
  notInformal : alias? name = none
  notEntered : lookup? name = none
  noPlural : lookup? (singular name) = none
  informal : (alias? (singular name)).isSome

theorem scale_of_none {r : ResolvedName} (h : r.power = none) : (r.scale : ℝ) = 1 := by
  rw [ResolvedName.scale, h, Scalar.ofNat_real, Nat.cast_one]

theorem scale_of_some {r : ResolvedName} {power : Int} (h : r.power = some power) (hpower : power ≠ 0) :
    (r.scale : ℝ) ≠ 1 := by
  simp only [ResolvedName.scale, h, Scalar.pow_real, Scalar.ofNat_real, Scalar.ofInt_real,
    Real.rpow_intCast]
  exact fun hone => hpower ((zpow_eq_one_iff_right₀ (by norm_num) (by norm_num)).mp hone)

/-- What a name stands for that is found as it is. -/
theorem standsFor_iff {name : String} {m : UnitMeaning} {unit : NamedUnit ℝ}
    (h : resolve? name = some ⟨m, none, name⟩) : StandsFor name unit 1 name ↔ m.toUnit = unit := by
  constructor
  · rintro ⟨r, hr, rfl, -⟩
    rw [h] at hr
    cases hr
    rfl
  · rintro rfl
    exact ⟨_, h, rfl, scale_of_none rfl, rfl⟩

/-- A plural of an informal name alone is read behind a prefix, if at all. -/
theorem IsInformalPlural.not_standsFor {name : String} (h : IsInformalPlural name) (unit : NamedUnit ℝ) :
    ¬StandsFor name unit 1 name := by
  rintro ⟨r, hr, -, hscale, -⟩
  obtain ⟨m, hm⟩ := Option.isSome_iff_exists.mp h.informal
  have hlettered := isLettered_of_singular (isLettered_of_alias? hm)
  rw [resolve?, if_neg (not_tick_of_isLettered hlettered), h.notInformal, h.notEntered, h.noPlural] at hr
  split at hr
  · cases hr
  · obtain ⟨⟨power, hpower, hne⟩, -⟩ := of_resolveWithPrefix? hr
    exact scale_of_some hpower hne hscale

theorem isTaken_iff_ne {name : String} {e : VocabularyEntry} {m : UnitMeaning}
    (he : lookup? name = some e) (hm : alias? name = some m) :
    IsTaken name ↔ ¬m.toUnit = e.toUnit (R := ℝ) := by
  constructor
  · rintro ⟨_, _, he', hm', hne⟩
    rw [he] at he'
    rw [hm] at hm'
    cases he'
    cases hm'
    exact hne
  · exact fun hne => ⟨e, m, he, hm, hne⟩

/-- A symbol stands for what it means behind a prefix, unless its name is taken or it is the plural of an
informal name alone. -/
theorem standsFor_behind {symbol : String} {m : UnitMeaning} (h : BehindPrefix symbol m) :
    StandsFor symbol m.toUnit 1 symbol ↔ ¬(IsTaken symbol ∨ IsInformalPlural symbol) := by
  cases h with
  | whole htabled hdimension =>
    rcases hentry : lookup? symbol with _ | e
    · rw [tabled?_of_none hentry] at htabled
      refine iff_of_true ((standsFor_iff (resolve?_of_alias? htabled)).mpr rfl) ?_
      rintro (⟨e, -, he, -⟩ | hplural)
      · rw [hentry] at he
        cases he
      · rw [hplural.notInformal] at htabled
        cases htabled
    · rw [tabled?_of_lookup? hentry] at htabled
      cases htabled
      have hplural : ¬IsInformalPlural symbol := fun hplural => by
        rw [hplural.notEntered] at hentry
        cases hentry
      rcases halias : alias? symbol with _ | n
      · refine iff_of_true ((standsFor_iff (resolve?_of_lookup? halias hentry)).mpr rfl) ?_
        rintro (⟨_, n, -, hn, -⟩ | h)
        · rw [halias] at hn
          cases hn
        · exact hplural h
      · rw [standsFor_iff (resolve?_of_alias? halias), or_iff_left hplural, iff_not_comm]
        exact isTaken_iff_ne hentry halias
  | plural hwhole htabled hdimension =>
    -- the symbol is in neither table: a number there would have a number for its singular
    have hnone : tabled? symbol = none := by
      rcases hn : tabled? symbol with _ | n
      · rfl
      · rw [isOne_of_singular hn (hwhole n hn) htabled] at hdimension
        cases hdimension
    obtain ⟨hentry, halias⟩ := Option.or_eq_none_iff.mp hnone
    rw [Option.map_eq_none_iff] at hentry
    have hfree : ¬IsTaken symbol := by
      rintro ⟨e, -, he, -⟩
      rw [hentry] at he
      cases he
    rw [or_iff_right hfree]
    rcases hsingular : lookup? (singular symbol) with _ | e
    · rw [tabled?_of_none hsingular] at htabled
      have hplural : IsInformalPlural symbol := ⟨halias, hentry, hsingular, by rw [htabled]; rfl⟩
      exact iff_of_false (hplural.not_standsFor _) (not_not.mpr hplural)
    · rw [tabled?_of_lookup? hsingular] at htabled
      cases htabled
      refine iff_of_true ((standsFor_iff (resolve?_of_singular halias hentry hsingular)).mpr rfl) ?_
      intro hplural
      rw [hplural.noPlural] at hsingular
      cases hsingular

/-- Two names are taken. -/
theorem isTaken_iff_name (name : String) : IsTaken name ↔ name = "kt" ∨ name = "pt" := by
  constructor
  · rintro ⟨e, m, he, hm, hne⟩
    obtain ⟨target, hmem⟩ := mem_aliases hm
    rcases tablesAgree.aliasesEntered _ hmem with hsame | htaken | hnone
    · have halias := tablesAgree.sameEntries name hsame
      rw [he, hm] at halias
      cases halias
      exact absurd rfl hne
    · simpa using htaken
    · rw [lookup?_of_isApart hnone] at he
      cases he
  · intro h
    obtain ⟨e, he, m, hm, hne⟩ := tablesAgree.otherEntries name (by simpa using h)
    refine ⟨e, m, he, hm, fun hunit => hne ?_⟩
    have hbase := congrArg NamedUnit.base hunit
    rwa [UnitMeaning.toUnit_base, VocabularyEntry.toUnit_base] at hbase

/-- Among the plurals of entries, one has a singular that is taken. -/
theorem IsPlural.isTaken_iff {name : String} (h : IsPlural name) :
    IsTaken (singular name) ↔ name = "pts" := by
  constructor
  · intro htaken
    have hplural : name = singular name ++ "s" := by
      rcases eq_singular name with hsame | ⟨p, hp, -, hirregular⟩ | hending
      · obtain ⟨e, m, he, -⟩ := htaken
        rw [hsame, h.notEntered] at he
        cases he
      · rw [isTaken_iff_name, hirregular] at htaken
        exact absurd htaken (not_or.mpr (tablesAgree.otherPlurals.2.2 p hp))
      · exact hending
    rcases (isTaken_iff_name _).mp htaken with hkt | hpt
    · have hkts := tablesAgree.otherPlurals.1
      rw [hkt] at hplural
      have hname : name = "kts" := hplural
      rw [← hname, h.notInformal] at hkts
      cases hkts
    · rw [hpt] at hplural
      exact hplural
  · rintro rfl
    rw [isTaken_iff_name, tablesAgree.otherPlurals.2.1]
    exact .inr rfl

/-- **Coherent names.** A plural of an entry stands for a unit, and so does its singular, which is the
same unit for every plural but `pts`. If a name stands for a unit with a scale and shows a symbol, the
symbol is the name itself when the scale is one; by itself, it stands for that unit with the scale one in
this case and in all others except two: an entry whose name is taken by an informal name, `kt` and `pt`,
and the plural of an informal name that is neither in a table nor the plural of an entry. -/
theorem names_coherent (name : String) :
    (IsTaken name ↔ name = "kt" ∨ name = "pt") ∧
    (IsPlural name → ∃ unit unit' : NamedUnit ℝ, StandsFor name unit 1 name ∧
      StandsFor (singular name) unit' 1 (singular name) ∧ (unit' = unit ↔ name ≠ "pts")) ∧
    ∀ unit scale symbol, StandsFor name unit scale symbol →
      (scale = 1 → symbol = name) ∧
      (StandsFor symbol unit 1 symbol ↔ scale = 1 ∨ ¬(IsTaken symbol ∨ IsInformalPlural symbol)) := by
  refine ⟨isTaken_iff_name name, fun h => ?_, fun unit scale symbol h => ?_⟩
  · -- a plural of an entry: only for `pts` does an informal name get in front of its singular
    obtain ⟨e, he⟩ := Option.isSome_iff_exists.mp h.entered
    have hname := resolve?_of_singular h.notInformal h.notEntered he
    rcases halias : alias? (singular name) with _ | m
    · have hfree : name ≠ "pts" := by
        rintro hpts
        obtain ⟨_, m, -, hm, -⟩ := h.isTaken_iff.mpr hpts
        rw [halias] at hm
        cases hm
      exact ⟨_, _, (standsFor_iff hname).mpr rfl, (standsFor_iff (resolve?_of_lookup? halias he)).mpr rfl,
        iff_of_true rfl hfree⟩
    · refine ⟨_, _, (standsFor_iff hname).mpr rfl, (standsFor_iff (resolve?_of_alias? halias)).mpr rfl, ?_⟩
      rw [ne_eq, ← h.isTaken_iff, isTaken_iff_ne he halias, not_not]
      exact Iff.rfl
  · obtain ⟨r, hr, rfl, rfl, rfl⟩ := h
    -- no prefix: the name is its own symbol
    rcases symbol_or_prefix hr with ⟨hpower, hsymbol⟩ | hprefix
    · have hscale := scale_of_none hpower
      refine ⟨fun _ => hsymbol, iff_of_true ?_ (.inl hscale)⟩
      rw [hsymbol]
      exact ⟨r, hr, rfl, hscale, hsymbol⟩
    · -- a prefix: the scale is a power of ten other than one, and the symbol is what stands behind it
      obtain ⟨⟨power, hpower, hne⟩, hbehind⟩ := of_resolveWithPrefix? hprefix
      have hscale := scale_of_some hpower hne
      rw [or_iff_right hscale]
      exact ⟨fun hone => absurd hone hscale, standsFor_behind hbehind⟩

/-! ### Kilograms, years, and what is shown as pints -/

def year : VocabularyEntry :=
  .base ⟨"year", [], ["years"], [(.time, 1)], .exact 31557600, false⟩

/-- `kgs` and `kg` are one unit. Thousandths of years are shown in years, which stand for themselves. -/
theorem kgs_and_milliyears :
    (IsPlural "kgs" ∧ ∃ unit, StandsFor "kgs" unit 1 "kgs" ∧ StandsFor "kg" unit 1 "kg") ∧
      ∃ unit scale, StandsFor "milliyears" unit scale "years" ∧ StandsFor "years" unit 1 "years" := by
  have hplural : IsPlural "kgs" :=
    ⟨by decide +kernel, lookup?_of_isUnentered (by decide +kernel), by decide +kernel⟩
  refine ⟨⟨hplural, ?_⟩, ?_⟩
  · obtain ⟨unit, unit', hkgs, hkg, hsame⟩ := (names_coherent "kgs").2.1 hplural
    obtain rfl := hsame.mpr (by decide)
    exact ⟨_, hkgs, hkg⟩
  · have hsingular : singular "milliyears" = "milliyear" := by decide +kernel
    have hentered : lookup? "years" = some year := by decide +kernel
    have hresolve : resolve? "milliyears" = some ⟨.entry year, some (-3), "years"⟩ := by
      refine resolve?_of_prefix (by decide +kernel) (by decide) (by decide +kernel)
        (lookup?_of_isUnentered (by decide +kernel)) ?_ (by decide +kernel)
        (tabled?_of_lookup? hentered) (by decide +kernel)
      rw [hsingular]
      exact lookup?_of_isUnentered (by decide +kernel)
    have hmilliyears : StandsFor "milliyears" year.toUnit _ "years" := ⟨_, hresolve, rfl, rfl, rfl⟩
    obtain ⟨-, hsymbol⟩ := (names_coherent "milliyears").2.2 _ _ _ hmilliyears
    refine ⟨_, _, hmilliyears, hsymbol.mpr (.inr ?_)⟩
    rintro (hyears | hyears)
    · exact absurd ((isTaken_iff_name "years").mp hyears) (by decide)
    · rw [hyears.notEntered] at hentered
      cases hentered

def picotonne : VocabularyEntry :=
  .withPrefix ⟨"pico", "p", -12⟩ ⟨"tonne", ["t"], ["tonnes"], [(.mass, 1)], .exact 1000, true⟩

def pint : VocabularyEntry :=
  .base ⟨"pint", [], ["pints"], [(.length, 3)], .exact (473176473 / 1000000000000), false⟩

/-- The plural `pts` and a prefix in front of `pt` give picotonnes, but `pt` is a pint. -/
theorem pt_is_no_picotonne :
    (IsPlural "pts" ∧ StandsFor "pts" picotonne.toUnit 1 "pts" ∧
      ∀ scale symbol, ¬StandsFor (singular "pts") picotonne.toUnit scale symbol) ∧
    (∃ scale, StandsFor "kilopt" picotonne.toUnit scale "pt") ∧ ¬StandsFor "pt" picotonne.toUnit 1 "pt" := by
  have hentered : lookup? "pt" = some picotonne := by decide +kernel
  have hinformal : alias? "pt" = some (.entry pint) := by decide +kernel
  have hne : pint.toUnit ≠ picotonne.toUnit (R := ℝ) :=
    fun h => absurd (congrArg NamedUnit.base h) (by decide : "pint" ≠ "tonne")
  have hpt : ∀ scale symbol, ¬StandsFor "pt" picotonne.toUnit scale symbol := by
    rintro scale symbol ⟨r, hr, hunit, -⟩
    rw [resolve?_of_alias? hinformal] at hr
    cases hr
    exact hne hunit
  have hsingular : singular "pts" = "pt" ∧ singular "kilopt" = "kilopt" := by decide +kernel
  have hplural : IsPlural "pts" := by
    refine ⟨by decide +kernel, lookup?_of_isUnentered (by decide +kernel), ?_⟩
    rw [hsingular.1, hentered]
    rfl
  have hpts : resolve? "pts" = some ⟨.entry picotonne, none, "pts"⟩ := by
    refine resolve?_of_singular hplural.notInformal hplural.notEntered ?_
    rw [hsingular.1, hentered]
  have hkilopt : resolve? "kilopt" = some ⟨.entry picotonne, some 3, "pt"⟩ := by
    have hnone : lookup? "kilopt" = none := lookup?_of_isUnentered (by decide +kernel)
    refine resolve?_of_prefix (by decide +kernel) (by decide) (by decide +kernel) hnone ?_ (by decide +kernel)
      (tabled?_of_lookup? hentered) (by decide +kernel)
    rw [hsingular.2, hnone]
  rw [hsingular.1]
  exact ⟨⟨hplural, (standsFor_iff hpts).mpr rfl, hpt⟩, ⟨_, _, hkilopt, rfl, rfl, rfl⟩, hpt 1 "pt"⟩

end UnitName

end Ballpark
