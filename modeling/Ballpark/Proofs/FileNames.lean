import Ballpark.Chart.FileName
import Ballpark.Proofs.UnitSpelling
import Mathlib.Data.List.Chain
import Mathlib.Data.List.DropRight
import Mathlib.Data.List.TakeWhile

/-!
# Names of files

A file name keeps the runs of letters and digits of a name and writes one underscore between them
(`FileName.ofName_eq`): trimming the ends and writing one underscore for several characters leave the runs
as they are, pass after pass (`FileName.runs_tidied`), and behind the passes no two underscores meet and
none is at an end. So two names without points and hyphens have one file name exactly if they have the same
runs (`FileName.ofName_eq_iff`), and what stands between the runs is lost.

Whatever the name, its file name is in normal form (`FileName.IsNormal`), and names in normal form are left
as they are (`FileName.isNormal_ofName`).
-/

namespace Ballpark.FileName

/-! ## Runs of letters and digits -/

/-- A character that is no ASCII letter or digit. -/
def separates (c : Char) : Bool :=
  !c.isAlphanum

/-- The longest runs of letters and digits in a text, in their order. -/
def runs (text : List Char) : List (List Char) :=
  (text.splitOnP separates).filter (!·.isEmpty)

theorem separates_of_isEdge {c : Char} (h : isEdge c = true) : separates c = true := by
  rw [isEdge, Bool.or_eq_true, beq_iff_eq, beq_iff_eq] at h
  rcases h with rfl | rfl <;> rfl

theorem runs_append_cons {c : Char} (hc : separates c = true) (text rest : List Char) :
    runs (text ++ c :: rest) = runs text ++ runs rest := by
  rw [runs, List.splitOnP_append_cons _ _ hc, List.filter_append]
  rfl

theorem runs_cons {c : Char} (hc : separates c = true) (rest : List Char) : runs (c :: rest) = runs rest :=
  runs_append_cons hc [] rest

theorem runs_append_of_separates {front : List Char} (h : ∀ c ∈ front, separates c = true)
    (rest : List Char) : runs (front ++ rest) = runs rest := by
  induction front with
  | nil => rfl
  | cons c front ih =>
    obtain ⟨hc, hfront⟩ := List.forall_mem_cons.mp h
    rw [List.cons_append, runs_cons hc, ih hfront]

theorem runs_append_separators {back : List Char} (h : ∀ c ∈ back, separates c = true)
    (text : List Char) : runs (text ++ back) = runs text := by
  rcases back with _ | ⟨c, back⟩
  · rw [List.append_nil]
  · obtain ⟨hc, hback⟩ := List.forall_mem_cons.mp h
    have hnone := runs_append_of_separates hback []
    rw [List.append_nil] at hnone
    rw [runs_append_cons hc, hnone]
    exact List.append_nil _

theorem separates_of_not_isAllowed {c : Char} (h : (!isAllowed c) = true) : separates c = true := by
  simp only [isAllowed, Bool.not_eq_true', Bool.or_eq_false_iff] at h
  rw [separates, h.1.1.1]
  rfl

theorem separates_of_isBlank {c : Char} (h : Text.isBlank c = true) : separates c = true := by
  rw [separates, Bool.not_eq_true', Bool.eq_false_iff]
  intro halphanum
  -- the codes of letters and digits lie between those of blanks
  have hcode : 0x30 ≤ c.toNat ∧ c.toNat ≤ 0x7a := by
    simp only [Char.isAlphanum, UnitToken.isAlpha_eq, Char.isDigit, Bool.or_eq_true, Bool.and_eq_true,
      decide_eq_true_eq, UInt32.le_iff_toNat_le, ge_iff_le] at halphanum
    rcases halphanum with (h | h) | h <;> exact ⟨le_trans (by decide) h.1, le_trans h.2 (by decide)⟩
  have hblank := UnitToken.code_of_isBlank h
  omega

/-- **Runs of separators may be joined**, whatever stands in front. -/
theorem runs_append_joinRuns {isOf : Char → Bool} (hof : ∀ c, isOf c = true → separates c = true)
    (front text : List Char) : runs (front ++ joinRuns isOf text) = runs (front ++ text) := by
  induction text generalizing front with
  | nil => rfl
  | cons c rest ih =>
    rw [joinRuns]
    by_cases hc : isOf c = true
    · rw [runs_append_cons (hof c hc)]
      split
      · -- the run goes on, so what is left out separates from the next of its characters
        rename_i hmore
        obtain ⟨d, hhead, hd⟩ := (Option.any_eq_true _ _).mp ((Bool.and_eq_true _ _ ▸ hmore).2)
        obtain ⟨more, rfl⟩ := List.head?_eq_some_iff.mp hhead
        rw [ih, runs_append_cons (hof d hd), runs_cons (hof d hd)]
      · rw [runs_append_cons rfl, ← List.nil_append (joinRuns isOf rest), ih, List.nil_append]
    · rw [if_neg (by simp [hc]), if_neg hc, List.append_cons, ih, ← List.append_cons]

/-- What is dropped at the ends is all of one kind. -/
theorem exists_trimmed (isOf : Char → Bool) (text : List Char) : ∃ front back,
    text = front ++ ((text.dropWhile isOf).rdropWhile isOf ++ back) ∧
      (∀ c ∈ front, isOf c = true) ∧ ∀ c ∈ back, isOf c = true := by
  refine ⟨text.takeWhile isOf, (text.dropWhile isOf).rtakeWhile isOf, ?_,
    fun c hc => List.mem_takeWhile_imp hc, fun c hc => List.mem_rtakeWhile_imp hc⟩
  rw [List.rdropWhile, List.rtakeWhile, ← List.reverse_append, List.takeWhile_append_dropWhile,
    List.reverse_reverse, List.takeWhile_append_dropWhile]

theorem runs_trimmed {isOf : Char → Bool} (hof : ∀ c, isOf c = true → separates c = true)
    (text : List Char) : runs ((text.dropWhile isOf).rdropWhile isOf) = runs text := by
  obtain ⟨front, back, htext, hfront, hback⟩ := exists_trimmed isOf text
  conv_rhs => rw [htext]
  rw [runs_append_of_separates fun c hc => hof c (hfront c hc),
    runs_append_separators fun c hc => hof c (hback c hc)]

/-- **What is left of a text has its runs.** -/
theorem runs_tidied (text : List Char) : runs (tidied text) = runs text := by
  have hunderscore : ∀ c, (c == '_') = true → separates c = true := fun c hc => beq_iff_eq.mp hc ▸ rfl
  have hjoin : ∀ {isOf : Char → Bool}, (∀ c, isOf c = true → separates c = true) → ∀ text,
      runs (joinRuns isOf text) = runs text := fun hof text => runs_append_joinRuns hof [] text
  calc runs (tidied text)
      = runs (joinRuns (· == '_') (joinRuns (!isAllowed ·) (joinRuns Text.isBlank (Text.trim text)))) :=
        runs_trimmed (fun _ => separates_of_isEdge) _
    _ = runs (Text.trim text) := by
      rw [hjoin hunderscore, hjoin fun _ => separates_of_not_isAllowed, hjoin fun _ => separates_of_isBlank]
    _ = runs text := runs_trimmed (fun _ => separates_of_isBlank) text

/-! ## What is left of a name -/

/-- No two underscores meet. -/
def IsSqueezed (text : List Char) : Prop :=
  text.IsChain fun c d => ¬(c = '_' ∧ d = '_')

theorem of_mem_joinRuns {isOf : Char → Bool} {c : Char} {text : List Char} (h : c ∈ joinRuns isOf text) :
    c = '_' ∨ c ∈ text ∧ isOf c = false := by
  induction text with
  | nil => cases h
  | cons d rest ih =>
    have hrest : c ∈ joinRuns isOf rest → c = '_' ∨ c ∈ d :: rest ∧ isOf c = false := fun h =>
      (ih h).imp_right fun h => ⟨List.mem_cons_of_mem _ h.1, h.2⟩
    rw [joinRuns] at h
    split at h
    · exact hrest h
    · rcases List.mem_cons.mp h with rfl | h
      · split
        · exact .inl rfl
        · exact .inr ⟨List.mem_cons_self, by simpa using ‹¬isOf d = true›⟩
      · exact hrest h

theorem head?_joinRuns_underscores (text : List Char) : (joinRuns (· == '_') text).head? = text.head? := by
  induction text with
  | nil => rfl
  | cons c rest ih =>
    rw [joinRuns]
    split
    · rename_i hmore
      obtain ⟨hc, d, hhead, hd⟩ : c = '_' ∧ ∃ d, rest.head? = some d ∧ d = '_' := by
        simpa [Option.any_eq_true] using hmore
      rw [ih, hhead, hc, hd]
      rfl
    · split
      · rename_i hc
        rw [beq_iff_eq.mp hc]
        rfl
      · rfl

theorem isSqueezed_joinRuns (text : List Char) : IsSqueezed (joinRuns (· == '_') text) := by
  induction text with
  | nil => exact .nil
  | cons c rest ih =>
    rw [joinRuns]
    split
    · exact ih
    · rename_i hmore
      refine List.isChain_cons.mpr ⟨fun d hd => ?_, ih⟩
      rw [head?_joinRuns_underscores] at hd
      rintro ⟨hc, rfl⟩
      refine hmore ?_
      simpa [Option.mem_def.mp hd] using hc

theorem trimmed_isInfix (isOf : Char → Bool) (text : List Char) :
    (text.dropWhile isOf).rdropWhile isOf <:+: text := by
  obtain ⟨front, back, htext, -, -⟩ := exists_trimmed isOf text
  exact ⟨front, back, by rw [List.append_assoc, ← htext]⟩

/-- What is left holds what is allowed, and nothing but underscores that was not there. -/
theorem of_mem_tidied {c : Char} {text : List Char} (h : c ∈ tidied text) :
    isAllowed c = true ∧ (c = '_' ∨ c ∈ text) := by
  have hunderscore : c = '_' → isAllowed c = true ∧ (c = '_' ∨ c ∈ text) := by
    rintro rfl
    exact ⟨rfl, .inl rfl⟩
  rcases of_mem_joinRuns ((trimmed_isInfix isEdge _).subset h) with hc | ⟨h, -⟩
  · exact hunderscore hc
  rcases of_mem_joinRuns h with hc | ⟨h, hallowed⟩
  · exact hunderscore hc
  rcases of_mem_joinRuns h with hc | ⟨h, -⟩
  · exact hunderscore hc
  · exact ⟨by simpa using hallowed, .inr ((trimmed_isInfix Text.isBlank text).subset h)⟩

theorem IsSqueezed.trimEdges {text : List Char} (h : IsSqueezed text) :
    IsSqueezed (FileName.trimEdges text) := by
  obtain ⟨front, back, htext⟩ := trimmed_isInfix isEdge text
  rw [← htext] at h
  exact (List.IsChain.left_of_append h).right_of_append

theorem isSqueezed_tidied (text : List Char) : IsSqueezed (tidied text) :=
  (isSqueezed_joinRuns _).trimEdges

theorem not_isEdge_of_getLast? {text : List Char} {c : Char} (h : (trimEdges text).getLast? = some c) :
    isEdge c = false := by
  have hhead := List.head?_dropWhile_not isEdge (text.dropWhile isEdge).reverse
  rw [trimEdges, List.getLast?_reverse] at h
  rwa [h] at hhead

/-- The end that is cut off last leaves the first character as it is. -/
theorem not_isEdge_of_head? {text : List Char} {c : Char} (h : (trimEdges text).head? = some c) :
    isEdge c = false := by
  have hprefix : trimEdges text <+: text.dropWhile isEdge := by
    have hsuffix := List.reverse_prefix.mpr (List.dropWhile_suffix (l := (text.dropWhile isEdge).reverse) isEdge)
    rwa [List.reverse_reverse] at hsuffix
  obtain ⟨rest, hrest⟩ := hprefix
  have hhead := List.head?_dropWhile_not isEdge text
  rwa [← hrest, List.head?_append, h] at hhead

/-- Where separators neither meet nor stand at the end, no run but the first is empty, and that one is
only in front of a separator. -/
theorem splitOnP_of_chain {text : List Char}
    (hchain : text.IsChain fun c d => ¬(separates c = true ∧ separates d = true))
    (hlast : ∀ c, text.getLast? = some c → separates c = false) :
    ∃ first more, text.splitOnP separates = first :: more ∧ (∀ run ∈ more, run ≠ []) ∧
      (first = [] → ∀ c, text.head? = some c → separates c = true) := by
  induction text with
  | nil => exact ⟨[], [], rfl, by simp, fun _ _ h => absurd h (by simp)⟩
  | cons c text ih =>
    obtain ⟨hnext, htail⟩ := List.isChain_cons.mp hchain
    have hend : ∀ d, text.getLast? = some d → separates d = false := by
      intro d hd
      refine hlast d ?_
      rw [List.getLast?_cons, hd, Option.getD_some]
    obtain ⟨first, more, hsplit, hmore, hfirst⟩ := ih htail hend
    rw [List.splitOnP_cons_eq_if_modifyHead, hsplit]
    by_cases hc : separates c = true
    · -- a separator ends the run in front of it, which is empty only at the start
      rw [if_pos hc]
      refine ⟨[], first :: more, rfl, List.forall_mem_cons.mpr ⟨fun hnil => ?_, hmore⟩, fun _ d hd => ?_⟩
      · cases text with
        | nil => exact absurd hc (by simp [hlast c rfl])
        | cons d text => exact hnext d rfl ⟨hc, hfirst hnil d rfl⟩
      · cases hd
        exact hc
    · -- any other character joins the first run
      rw [if_neg hc]
      exact ⟨c :: first, more, rfl, hmore, fun h => absurd h (List.cons_ne_nil _ _)⟩

theorem splitOnP_eq_splitOn {text : List Char} (h : ∀ c ∈ text, separates c = true → c = '_') :
    text.splitOnP separates = text.splitOn '_' := by
  rw [List.splitOn_eq_splitOnP]
  induction text with
  | nil => rfl
  | cons c text ih =>
    obtain ⟨hc, htext⟩ := List.forall_mem_cons.mp h
    have hsame : separates c = (c == '_') := by
      rw [Bool.eq_iff_iff, beq_iff_eq]
      exact ⟨hc, by rintro rfl; rfl⟩
    rw [List.splitOnP_cons_eq_if_modifyHead, List.splitOnP_cons_eq_if_modifyHead, ih htext, hsame]

/-- **A text is its runs with one underscore between them**, if no two underscores meet, none is at an end
and nothing else separates. -/
theorem intercalate_runs {text : List Char} (hchars : ∀ c ∈ text, separates c = true → c = '_')
    (hsqueezed : IsSqueezed text) (hhead : ∀ c, text.head? = some c → separates c = false)
    (hlast : ∀ c, text.getLast? = some c → separates c = false) : ['_'].intercalate (runs text) = text := by
  rcases text with _ | ⟨c, text⟩
  · rfl
  have hchain := hsqueezed.imp_of_mem_imp
    (S := fun c d => ¬(separates c = true ∧ separates d = true))
    fun c d hc hd h hboth => h ⟨hchars c hc hboth.1, hchars d hd hboth.2⟩
  obtain ⟨first, more, hsplit, hmore, hfirst⟩ := splitOnP_of_chain hchain hlast
  have hnonempty : first ≠ [] := fun hnil => absurd (hfirst hnil c rfl) (by simp [hhead c rfl])
  have hruns : runs (c :: text) = (c :: text).splitOnP separates := by
    rw [runs, List.filter_eq_self, hsplit]
    simpa using ⟨hnonempty, hmore⟩
  rw [hruns, splitOnP_eq_splitOn hchars, List.intercalate_splitOn]

theorem not_separates_of_mem_runs {text run : List Char} (h : run ∈ runs text) :
    ∀ c ∈ run, separates c = false := by
  replace h := List.mem_of_mem_filter h
  induction text generalizing run with
  | nil => simp at h; simp [h]
  | cons c text ih =>
    rw [List.splitOnP_cons_eq_if_modifyHead] at h
    split at h
    · rcases List.mem_cons.mp h with rfl | h
      · simp
      · exact ih h
    · rename_i hc
      cases hsplit : text.splitOnP separates with
      | nil => exact absurd hsplit (List.splitOnP_ne_nil _ _)
      | cons first more =>
        rw [hsplit] at ih h
        rcases List.mem_cons.mp h with rfl | h
        · exact List.forall_mem_cons.mpr ⟨by simpa using hc, ih List.mem_cons_self⟩
        · exact ih (List.mem_cons_of_mem _ h)

/-! ## File names of names -/

/-- A name without points and hyphens. -/
def IsPlain (name : String) : Prop :=
  ∀ c ∈ name.toList, c ≠ '.' ∧ c ≠ '-'

instance : DecidablePred IsPlain :=
  fun name => decidable_of_iff (name.toList.all fun c => c != '.' && c != '-') (by simp [IsPlain])

/-- The words of a name: its runs of letters and digits, or a word of its own for a name without any. -/
def words (name : String) : List String :=
  match runs name.toList with
  | [] => [fallback]
  | found => found.map String.ofList

theorem toList_words (name : String) : (words name).map String.toList =
    if runs name.toList = [] then [fallback.toList] else runs name.toList := by
  rw [words]
  split
  · rename_i hruns
    rw [if_pos hruns]
    rfl
  · rename_i hruns
    rw [if_neg hruns, List.map_map]
    exact List.map_id'' (fun _ => String.toList_ofList) _

theorem splitOn_words (name : String) :
    (['_'].intercalate ((words name).map String.toList)).splitOn '_' = (words name).map String.toList := by
  rw [toList_words]
  split
  · rfl
  · rename_i hsome
    refine List.splitOn_intercalate '_' (fun run hrun hmem => ?_) hsome
    exact absurd (not_separates_of_mem_runs hrun _ hmem) (by decide)

/-- **A file name is the words of a name with one underscore between them.** -/
theorem ofName_eq {name : String} (h : IsPlain name) : ofName name = "_".intercalate (words name) := by
  -- what a plain name keeps apart from letters and digits is the underscore
  have hchars : ∀ c ∈ tidied name.toList, separates c = true → c = '_' := by
    intro c hc hsep
    obtain ⟨hallowed, heq | hmem⟩ := of_mem_tidied hc
    · exact heq
    · have hboth : (c.isAlphanum = true ∨ c = '_') ∧ c.isAlphanum = false := by
        simpa [isAllowed, separates, h c hmem] using And.intro hallowed hsep
      exact hboth.1.resolve_left (by simp [hboth.2])
  have hedge : ∀ c ∈ tidied name.toList, isEdge c = false → separates c = false := by
    intro c hc hinner
    rw [Bool.eq_false_iff]
    intro hsep
    rw [hchars c hc hsep] at hinner
    cases hinner
  have hruns := runs_tidied name.toList
  have htext := intercalate_runs hchars (isSqueezed_tidied _)
    (fun c hc => hedge c (List.mem_of_mem_head? hc) (not_isEdge_of_head? hc))
    (fun c hc => hedge c (List.mem_of_mem_getLast? hc) (not_isEdge_of_getLast? hc))
  rw [hruns] at htext
  rw [← String.toList_inj, String.toList_intercalate, toList_words, ofName, ← htext]
  -- a name without words has no text to put between them
  by_cases hnone : runs name.toList = []
  · rw [hnone]
    rfl
  · have hsome : ['_'].intercalate (runs name.toList) ≠ [] := by
      intro hnil
      rw [hnil] at htext
      rw [← htext] at hruns
      exact hnone hruns.symm
    simp [hnone, hsome]

theorem ofName_eq_iff {a b : String} (ha : IsPlain a) (hb : IsPlain b) :
    ofName a = ofName b ↔ words a = words b := by
  rw [ofName_eq ha, ofName_eq hb]
  refine ⟨fun h => ?_, fun h => by rw [h]⟩
  rw [← String.toList_inj, String.toList_intercalate, String.toList_intercalate] at h
  have hwords := congrArg (List.splitOn '_') h
  rw [show "_".toList = ['_'] from rfl, splitOn_words, splitOn_words] at hwords
  exact List.map_injective_iff.mpr (fun _ _ => String.toList_inj.mp) hwords

/-! ## Normal form -/

/-- Names that are a part of a file name as they are. -/
structure IsNormal (name : String) : Prop where
  nonempty : name ≠ ""
  allowed : ∀ c ∈ name.toList, c.isAlphanum = true ∨ c = '.' ∨ c = '_' ∨ c = '-'
  squeezed : IsSqueezed name.toList
  first : ∀ c, name.toList.head? = some c → c ≠ '.' ∧ c ≠ '_'
  last : ∀ c, name.toList.getLast? = some c → c ≠ '.' ∧ c ≠ '_'

theorem isAllowed_iff {c : Char} :
    isAllowed c = true ↔ c.isAlphanum = true ∨ c = '.' ∨ c = '_' ∨ c = '-' := by
  simp [isAllowed, or_assoc]

theorem isEdge_eq_false_iff {c : Char} : isEdge c = false ↔ c ≠ '.' ∧ c ≠ '_' := by
  simp [isEdge]

theorem not_isBlank_of_isAllowed {c : Char} (h : isAllowed c = true) : Text.isBlank c = false := by
  rw [Bool.eq_false_iff]
  intro hblank
  have hsep := separates_of_isBlank hblank
  rcases isAllowed_iff.mp h with halphanum | rfl | rfl | rfl
  · simp [separates, halphanum] at hsep
  all_goals exact absurd hblank (by decide)

/-- Nothing is dropped at ends of another kind. -/
theorem trimmed_eq_self {isOf : Char → Bool} {text : List Char}
    (hfirst : ∀ c, text.head? = some c → isOf c = false)
    (hlast : ∀ c, text.getLast? = some c → isOf c = false) :
    (text.dropWhile isOf).rdropWhile isOf = text := by
  have hdrop : text.dropWhile isOf = text := by
    cases text with
    | nil => rfl
    | cons c rest => rw [List.dropWhile_cons_of_neg (by simp [hfirst c rfl])]
  rw [hdrop, List.rdropWhile_eq_self_iff]
  intro hsome
  rw [hlast _ (List.getLast?_eq_some_getLast hsome)]
  exact Bool.false_ne_true

theorem joinRuns_eq_self {isOf : Char → Bool} {text : List Char} (h : ∀ c ∈ text, isOf c = false) :
    joinRuns isOf text = text := by
  induction text with
  | nil => rfl
  | cons c rest ih =>
    obtain ⟨hc, hrest⟩ := List.forall_mem_cons.mp h
    rw [joinRuns, hc, ih hrest]
    rfl

theorem IsSqueezed.joinRuns_eq_self {text : List Char} (h : IsSqueezed text) :
    joinRuns (· == '_') text = text := by
  induction text with
  | nil => rfl
  | cons c rest ih =>
    obtain ⟨hnext, hrest⟩ := List.isChain_cons.mp h
    have halone : ¬(c == '_' && rest.head?.any (· == '_')) = true := by
      rw [Bool.and_eq_true, beq_iff_eq, Option.any_eq_true]
      rintro ⟨hc, d, hd, hsame⟩
      exact hnext d hd ⟨hc, beq_iff_eq.mp hsame⟩
    rw [joinRuns, ih hrest, if_neg halone]
    split
    · rename_i hc
      rw [beq_iff_eq.mp hc]
    · rfl

/-- **A normal name is left as it is.** -/
theorem IsNormal.ofName_eq {name : String} (h : IsNormal name) : ofName name = name := by
  have hallowed : ∀ c ∈ name.toList, isAllowed c = true := fun c hc => isAllowed_iff.mpr (h.allowed c hc)
  have hblank : ∀ c ∈ name.toList, Text.isBlank c = false := fun c hc =>
    not_isBlank_of_isAllowed (hallowed c hc)
  have htrim : Text.trim name.toList = name.toList :=
    trimmed_eq_self (fun c hc => hblank c (List.mem_of_mem_head? hc))
      fun c hc => hblank c (List.mem_of_mem_getLast? hc)
  have hedges : trimEdges name.toList = name.toList :=
    trimmed_eq_self (fun c hc => isEdge_eq_false_iff.mpr (h.first c hc))
      fun c hc => isEdge_eq_false_iff.mpr (h.last c hc)
  have htidied : tidied name.toList = name.toList := by
    have hkept : joinRuns (!isAllowed ·) name.toList = name.toList :=
      joinRuns_eq_self fun c hc => by simp [hallowed c hc]
    rw [tidied, htrim, joinRuns_eq_self hblank, hkept, h.squeezed.joinRuns_eq_self, hedges]
  have hsome : name.toList.isEmpty = false := by simp [h.nonempty]
  simp only [ofName, htidied, hsome]
  simp

/-- **A part of a file name is in normal form**: it is not empty, holds ASCII letters, digits, points,
underscores and hyphens only, no two underscores side by side and no point or underscore at an end; and so
it is left as it is the second time. -/
theorem isNormal_ofName (name : String) : IsNormal (ofName name) ∧ ofName (ofName name) = ofName name := by
  have hnormal : IsNormal (ofName name) := by
    rw [ofName]
    split
    · have hallowed : fallback.toList.all isAllowed = true := by decide
      exact ⟨by decide, fun c hc => isAllowed_iff.mp (List.all_eq_true.mp hallowed c hc),
        by simp [fallback, IsSqueezed], by simp [fallback], by simp [fallback]⟩
    · rename_i hsome
      exact
        { nonempty := by simpa using hsome
          allowed := fun c hc => by
            rw [String.toList_ofList] at hc
            exact isAllowed_iff.mp (of_mem_tidied hc).1
          squeezed := by
            rw [String.toList_ofList]
            exact isSqueezed_tidied _
          first := fun c hc => by
            rw [String.toList_ofList] at hc
            exact isEdge_eq_false_iff.mp (not_isEdge_of_head? hc)
          last := fun c hc => by
            rw [String.toList_ofList] at hc
            exact isEdge_eq_false_iff.mp (not_isEdge_of_getLast? hc) }
  exact ⟨hnormal, hnormal.ofName_eq⟩

end Ballpark.FileName
