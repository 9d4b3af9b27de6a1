import Ballpark.Proofs.UnitSpelling
import Ballpark.Proofs.Vocabulary

/-!
# The letters of names

The tables are full of names that a unit's text may hold: each begins with a letter or a sign and goes on
with letters, signs and digits (`Vocabulary.isLettered`). What is resolved by its singular is such a name,
too. For an irregular plural, which is looked up in small letters, this is a fact about small letters: no
foreign letter but one has a small form among those of ASCII (`Text.caseTable_beyond`).
-/

namespace Ballpark

open Vocabulary

/-! ## Small letters -/

namespace Text

/-- Does a run keep its code points, if they are foreign, away from ASCII? The sign for kelvins does not:
its small form is a common `k`. -/
def CaseRun.staysBeyond (r : CaseRun) : Bool :=
  decide (0 ≤ r.shift) || decide (0x80 ≤ (r.first : Int) + r.shift) ||
    (r.first == r.last && decide ((r.first : Int) + r.shift = 'k'.toNat))

/-- Lines of runs that stay away from ASCII. -/
structure StaysBeyond (lines : List String) : Prop where
  words : ∀ line ∈ lines, ∀ word ∈ splitWords line.toList, (CaseRun.ofText word).staysBeyond = true

theorem StaysBeyond.nil : StaysBeyond [] :=
  ⟨fun _ h => absurd h List.not_mem_nil⟩

/-- A line is given by its characters, which spares decoding it. -/
theorem StaysBeyond.cons {line : String} {text : List Char} {lines : List String}
    (hline : line = String.ofList text)
    (h : (splitWords text).all (fun word => (CaseRun.ofText word).staysBeyond) = true)
    (hlines : StaysBeyond lines) : StaysBeyond (line :: lines) := by
  refine ⟨List.forall_mem_cons.mpr ⟨?_, hlines.words⟩⟩
  rw [hline, String.toList_ofList]
  exact List.all_eq_true.mp h

theorem caseTable_beyond : ∀ r ∈ caseTable, r.staysBeyond = true := by
  intro r hr
  obtain ⟨word, hword, rfl⟩ := List.mem_map.mp hr
  obtain ⟨line, hline, hword⟩ := List.mem_flatMap.mp hword
  refine StaysBeyond.words ?_ line hline word hword
  repeat' first
    | exact .nil
    | refine .cons rfl (by decide +kernel) ?_

theorem code_of_isAlpha {c : Char} (h : c.isAlpha = true) : 0x41 ≤ c.toNat ∧ c.toNat < 0x80 := by
  simp only [UnitToken.isAlpha_eq, Bool.or_eq_true, Bool.and_eq_true, decide_eq_true_eq,
    UInt32.le_iff_toNat_le] at h
  have hcode : c.toNat = c.val.toNat := rfl
  rcases h with h | h
  · exact ⟨h.1, lt_of_le_of_lt h.2 (by decide)⟩
  · exact ⟨le_trans (by decide) h.1, lt_of_le_of_lt h.2 (by decide)⟩

theorem isAlpha_of_toLower {c : Char} (h : c.toLower.isAlpha = true) : c.isAlpha = true := by
  by_cases hupper : 'A'.val ≤ c.val ∧ c.val ≤ 'Z'.val
  · rw [UnitToken.isAlpha_eq, decide_eq_true hupper, Bool.true_or]
  · rwa [show c.toLower = c from dif_neg hupper] at h

theorem toNat_ofNat (n : Nat) : (Char.ofNat n).toNat = n ∨ (Char.ofNat n).toNat = 0 := by
  by_cases hvalid : n.isValidChar
  · exact .inl (congrArg Char.toNat (dif_pos hvalid))
  · exact .inr (congrArg Char.toNat (dif_neg hvalid))

/-- A character whose small form is a letter of ASCII is a letter of ASCII, unless the form is `k`. -/
theorem isAlpha_of_lowerChar {c : Char} (h : ∀ d ∈ lowerChar c, d.isAlpha = true ∧ d ≠ 'k') :
    c.isAlpha = true := by
  rw [lowerChar] at h
  split at h
  · exact isAlpha_of_toLower (h _ (List.mem_singleton_self _)).1
  rename_i hforeign
  split at h
  · -- behind the small letter stands a dot, which is no letter
    exact absurd (h _ (List.mem_cons_of_mem _ (List.mem_singleton_self _))).1 (by decide)
  split at h
  · rename_i r hr
    exfalso
    obtain ⟨hletter, hk⟩ := h _ (List.mem_singleton_self _)
    have hholds := List.find?_some hr
    simp only [CaseRun.holds, Bool.and_eq_true, decide_eq_true_eq] at hholds
    have hbeyond := caseTable_beyond r (List.mem_of_find?_eq_some hr)
    simp only [CaseRun.staysBeyond, Bool.or_eq_true, Bool.and_eq_true, decide_eq_true_eq,
      beq_iff_eq] at hbeyond
    have hcode := code_of_isAlpha hletter
    rcases toNat_ofNat ((c.toNat : Int) + r.shift).toNat with heq | heq
    · rw [heq] at hcode
      rcases hbeyond with (hup | haway) | ⟨hsingle, hkelvin⟩
      · omega
      · omega
      · have hsmall : ((c.toNat : Int) + r.shift).toNat = 'k'.toNat := by omega
        exact hk (hsmall ▸ rfl)
    · rw [heq] at hcode
      exact absurd hcode.1 (by decide)
  · exact (h c (List.mem_singleton_self _)).1

theorem isAlpha_of_go {before : Option Char} {text : List Char}
    (h : ∀ d ∈ lower.go before text, d.isAlpha = true ∧ d ≠ 'k') : ∀ c ∈ text, c.isAlpha = true := by
  induction text generalizing before with
  | nil => exact fun c hc => absurd hc List.not_mem_nil
  | cons c rest ih =>
    rw [lower.go] at h
    simp only [List.forall_mem_append] at h
    refine List.forall_mem_cons.mpr ⟨?_, ih h.2⟩
    have hfront := h.1
    split at hfront
    · exact absurd (hfront _ (List.mem_singleton_self _)).1 (by decide)
    · exact isAlpha_of_lowerChar hfront

end Text

/-! ## Names of the tables -/

namespace Vocabulary

/-- Does a name begin with a letter or a sign, and go on with letters, signs and digits? -/
def isLettered (name : String) : Bool :=
  match name.toList with
  | [] => false
  | c :: rest => UnitToken.startsName c && rest.all UnitToken.continuesName

/-- What is checked name by name. -/
structure NamesLettered : Prop where
  plain : ∀ name ∈ plainNames, isLettered name = true
  signs : ∀ sign ∈ prefixSigns, isLettered sign = true
  extraForms : ∀ form ∈ extraPrefixForms.map (·.2), isLettered form = true
  informal : ∀ a ∈ aliases, isLettered a.1 = true
  irregular : ∀ p ∈ irregularPlurals, p.1.toList ≠ [] ∧ p.1.toList.all (fun d => d.isAlpha && d != 'k') = true

theorem namesLettered : NamesLettered where
  plain := by decide +kernel
  signs := by decide +kernel
  extraForms := by decide +kernel
  informal := by decide +kernel
  irregular := by decide +kernel

theorem isName_of_isLettered {name : String} (h : isLettered name = true) :
    UnitToken.IsName name.toList := by
  rw [isLettered] at h
  split at h
  · cases h
  · rename_i c rest hname
    rw [Bool.and_eq_true, List.all_eq_true] at h
    exact hname ▸ .plain h.1 h.2

theorem not_tick_of_isLettered {name : String} (h : isLettered name = true) :
    ¬(name.toList.head? == some '\'') = true := by
  intro htick
  obtain ⟨rest, hrest⟩ := List.head?_eq_some_iff.mp (beq_iff_eq.mp htick)
  rw [isLettered, hrest] at h
  cases h

theorem isLettered_append {a b : String} (ha : isLettered a = true)
    (hb : ∀ c ∈ b.toList, UnitToken.continuesName c = true) : isLettered (a ++ b) = true := by
  rw [isLettered] at ha ⊢
  split at ha
  · cases ha
  · rename_i c rest hname
    rw [Bool.and_eq_true, List.all_eq_true] at ha
    rw [String.toList_append, hname, List.cons_append]
    exact Bool.and_eq_true_iff.mpr ⟨ha.1, List.all_eq_true.mpr (List.forall_mem_append.mpr ⟨ha.2, hb⟩)⟩

theorem continuesName_of_isLettered {name : String} (h : isLettered name = true) :
    ∀ c ∈ name.toList, UnitToken.continuesName c = true := by
  rw [isLettered] at h
  split at h
  · cases h
  · rename_i hname
    rw [Bool.and_eq_true, List.all_eq_true] at h
    exact hname ▸ UnitToken.continues_cons h.1 h.2

theorem isLettered_of_prefixable {form : String} (h : form ∈ prefixable) : isLettered form = true := by
  rcases List.mem_append.mp h with h | h
  · obtain ⟨unit, hunit, hform⟩ := List.mem_flatMap.mp h
    refine namesLettered.plain form (List.mem_append_left _ (List.mem_flatMap.mpr ⟨unit, ?_, hform⟩))
    exact (List.mem_filter.mp hunit).1
  · exact namesLettered.extraForms form h

theorem isLettered_of_lookup? {name : String} {e : VocabularyEntry} (h : lookup? name = some e) :
    isLettered name = true := by
  rcases shape_of_lookup? h with hplain | ⟨sign, hsign, form, hform, rfl⟩
  · exact namesLettered.plain name hplain
  · exact isLettered_append (namesLettered.signs sign hsign)
      (continuesName_of_isLettered (isLettered_of_prefixable hform))

theorem mem_aliases {name : String} {m : UnitMeaning} (h : alias? name = some m) :
    ∃ target, (name, target) ∈ aliases := by
  rw [alias?] at h
  rcases hfind : aliases.find? (·.1 == name) with _ | ⟨key, target⟩
  · rw [hfind] at h
    cases h
  · have hkey := List.find?_some hfind
    obtain rfl : key = name := beq_iff_eq.mp hkey
    exact ⟨target, List.mem_of_find?_eq_some hfind⟩

theorem isLettered_of_alias? {name : String} {m : UnitMeaning} (h : alias? name = some m) :
    isLettered name = true := by
  obtain ⟨target, hmem⟩ := mem_aliases h
  exact namesLettered.informal _ hmem

/-- A name is its singular, an irregular plural, or the singular with the ending. -/
theorem eq_singular (name : String) : singular name = name ∨
    (∃ p ∈ irregularPlurals, p.1 = Text.lowerText name ∧ singular name = p.2) ∨
      name = singular name ++ "s" := by
  rcases hfind : irregularPlurals.find? (·.1 == Text.lowerText name) with _ | p
  · rcases hends : 1 < name.toList.length && name.toList.getLast? == some 's' with _ | _
    · left
      simp only [singular, hfind, hends, Bool.false_eq_true, if_false]
    · right; right
      have hlast := beq_iff_eq.mp (Bool.and_eq_true_iff.mp hends).2
      have hsingular : singular name = String.ofList name.toList.dropLast := by
        simp only [singular, hfind, hends, if_true]
      rw [hsingular, ← String.toList_inj, String.toList_append, String.toList_ofList]
      exact (List.dropLast_append_getLast? _ hlast).symm
  · have hp := List.find?_some hfind
    refine .inr (.inl ⟨p, List.mem_of_find?_eq_some hfind, beq_iff_eq.mp hp, ?_⟩)
    simp only [singular, hfind]

/-- An irregular plural has letters of ASCII alone, however it is capitalised. -/
theorem isLettered_of_irregular {name : String} {p : String × String} (hp : p ∈ irregularPlurals)
    (h : p.1 = Text.lowerText name) : isLettered name = true := by
  obtain ⟨hsome, hletters⟩ := namesLettered.irregular p hp
  rw [h, Text.lowerText, String.toList_ofList] at hsome hletters
  have hname := Text.isAlpha_of_go fun d hd => by simpa using List.all_eq_true.mp hletters d hd
  have hstarts : ∀ c ∈ name.toList, UnitToken.startsName c = true := fun c hc => by
    rw [UnitToken.startsName, hname c hc, Bool.true_or]
    rfl
  rw [isLettered]
  split
  · rename_i hnil
    rw [hnil] at hsome
    exact absurd rfl hsome
  · rename_i c rest hcons
    rw [hcons] at hstarts
    obtain ⟨hc, hrest⟩ := List.forall_mem_cons.mp hstarts
    refine Bool.and_eq_true_iff.mpr ⟨hc, List.all_eq_true.mpr fun d hd => ?_⟩
    rw [UnitToken.continuesName, hrest d hd, Bool.true_or]

/-- A plural has the letters of its singular, or those of an irregular plural. -/
theorem isLettered_of_singular {name : String} (h : isLettered (singular name) = true) :
    isLettered name = true := by
  rcases eq_singular name with hsame | ⟨p, hp, hirregular, -⟩ | hending
  · exact hsame ▸ h
  · exact isLettered_of_irregular hp hirregular
  · rw [hending]
    exact isLettered_append h (List.all_eq_true.mp (by decide))

end Vocabulary

end Ballpark
