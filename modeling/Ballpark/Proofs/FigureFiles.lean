import Ballpark.CommandLine
import Ballpark.Proofs.BinCounts
import Ballpark.Proofs.FileNames
import Ballpark.Proofs.ProgramLexing
import Mathlib.Data.Finset.Prod

/-!
# Files of figures

An uncertain variable has two figures, whose files are named for the words of its name and for the kind of
figure (`CommandLine.figurePath_eq_iff`). Names of variables have no points and no hyphens, so their files
meet where their words are the same: `x` and `_x` have one histogram between them
(`CommandLine.underscored_overwrites`). As many files are left as there are figures exactly if no two
uncertain variables have the same words (`CommandLine.figures_distinct_iff`).
-/

namespace Ballpark

/-- A name that the tokenizer of programs takes as one. -/
def Token.IsIdentifier (name : String) : Prop :=
  ∃ finish, Token.ofText name = .ok [⟨.name, name, 1, 1⟩, finish]

theorem Piece.IsWord.isPlain {text : List Char} (h : IsWord text) : ∀ c ∈ text, c ≠ '.' ∧ c ≠ '-' := by
  have hplain : ∀ {p : Char → Bool}, p '.' = false → p '-' = false →
      ∀ c, p c = true → c ≠ '.' ∧ c ≠ '-' := by
    intro p hpoint hhyphen c hc
    constructor <;> rintro rfl <;> simp_all
  cases h with
  | name hc hrest =>
    exact List.forall_mem_cons.mpr ⟨hplain (p := startsName) (by decide) (by decide) _ hc,
      fun d hd => hplain (p := continuesName) (by decide) (by decide) d (hrest d hd)⟩
  | label hc hrest =>
    refine List.forall_mem_cons.mpr ⟨by decide, List.forall_mem_cons.mpr ⟨?_, fun d hd => ?_⟩⟩
    · exact hplain (p := startsLabel) (by decide) (by decide) _ hc
    · exact hplain (p := Text.isWord) (by decide) (by decide) d (hrest d hd)

theorem Token.IsIdentifier.isPlain {name : String} (h : IsIdentifier name) : FileName.IsPlain name := by
  obtain ⟨finish, hread⟩ := h
  exact Piece.IsWord.isPlain (isLexed_of_read hread _ List.mem_cons_self)

namespace FileName

theorem IsPlain.append {a b : String} (ha : IsPlain a) (hb : IsPlain b) : IsPlain (a ++ b) := by
  intro c hc
  rw [String.toList_append, List.mem_append] at hc
  exact hc.elim (ha c) (hb c)

theorem isPlain_ofName {name : String} (h : IsPlain name) : IsPlain (ofName name) := by
  rw [ofName]
  split
  · decide
  · intro c hc
    rw [String.toList_ofList] at hc
    rcases (of_mem_tidied hc).2 with rfl | hmem
    · decide
    · exact h c hmem

/-- A name without points has no ending. -/
theorem withoutEnding_eq {name : String} (h : IsPlain name) : withoutEnding name = name := by
  have hall : name.toList.reverse.takeWhile (· != '.') = name.toList.reverse := by
    rw [List.takeWhile_eq_self_iff]
    intro c hc
    exact bne_iff_ne.mpr (h c (List.mem_reverse.mp hc)).1
  rw [withoutEnding, hall, List.length_reverse, if_pos (by simp)]

end FileName

namespace CommandLine

/-- The file of a variable's figure. -/
def figurePath (name kind : String) : String :=
  FileName.withFormat (FileName.ofName name ++ "_" ++ kind) "png"

theorem figurePath_eq {name kind : String} (h : FileName.IsPlain name) (hkind : kind ∈ figureKinds) :
    figurePath name kind = FileName.ofName name ++ ("_" ++ kind ++ ".png") := by
  have hplain : ∀ kind ∈ figureKinds, FileName.IsPlain kind := by decide
  have hstem : FileName.IsPlain (FileName.ofName name ++ "_" ++ kind) :=
    ((FileName.isPlain_ofName h).append (by decide)).append (hplain kind hkind)
  rw [figurePath, FileName.withFormat, FileName.withoutEnding_eq hstem]
  simp only [String.append_assoc]
  rfl

/-- **Where files of figures meet**: they are of one kind, for names with the same words. -/
theorem figurePath_eq_iff {a b k l : String} (ha : FileName.IsPlain a) (hb : FileName.IsPlain b)
    (hk : k ∈ figureKinds) (hl : l ∈ figureKinds) :
    figurePath a k = figurePath b l ↔ FileName.words a = FileName.words b ∧ k = l := by
  rw [figurePath_eq ha hk, figurePath_eq hb hl, ← FileName.ofName_eq_iff ha hb]
  refine ⟨fun h => ?_, by rintro ⟨h, rfl⟩; rw [h]⟩
  have hkind : k = l := by
    -- the last letters of the kinds differ
    have hback := congrArg (fun s => s.toList.reverse.take 5) h
    simp only [String.toList_append, List.reverse_append] at hback
    rw [figureKinds, List.mem_cons, List.mem_singleton] at hk hl
    rcases hk with rfl | rfl <;> rcases hl with rfl | rfl <;> first | rfl | cases hback
  subst hkind
  exact ⟨String.append_left_inj _ |>.mp h, rfl⟩

section

variable {R : Type} [Scalar R]

/-- The uncertain variables, in their order. -/
def uncertain (named : Bindings (Quantity R)) : List String :=
  (named.entries.filter (!·.2.isScalar)).map (·.1)

/-- The files of the figures of uncertain variables. -/
def figurePaths (names : List String) : List String :=
  names.flatMap fun name => figureKinds.map (figurePath name)

theorem figureFiles_eq {name : String} {q : Quantity R} {files : List String}
    (h : figureFiles name q = .ok files) :
    files = if q.isScalar then [] else figureKinds.map (figurePath name) := by
  rw [figureFiles] at h
  split at h
  · cases h
    rw [if_pos ‹_›]
  · obtain ⟨_, -, h⟩ := ok_of_bind h
    obtain ⟨_, -, h⟩ := ok_of_bind h
    cases h
    rw [if_neg ‹_›]
    rfl

theorem flatten_figureFiles {named : Bindings (Quantity R)} {files : List (List String)}
    (h : (named.entries.mapM fun e => figureFiles e.1 e.2) = .ok files) :
    files.flatten = figurePaths (uncertain named) := by
  have hall : (named.entries.mapM fun e => figureFiles e.1 e.2) =
      .ok (named.entries.map fun e => if e.2.isScalar then [] else figureKinds.map (figurePath e.1)) := by
    refine mapM_of_ok fun e he => ?_
    obtain ⟨found, hfound⟩ := ok_of_mapM h he
    rw [hfound, figureFiles_eq hfound]
  rw [Except.ok.inj (h.symm.trans hall), figurePaths, uncertain]
  generalize named.entries = entries
  induction entries with
  | nil => rfl
  | cons e entries ih =>
    rw [List.map_cons, List.flatten_cons, ih, List.filter_cons]
    by_cases hscalar : e.2.isScalar = true <;> simp [hscalar]

theorem mem_figurePaths {names : List String} {path : String} :
    path ∈ figurePaths names ↔ ∃ name ∈ names, ∃ kind ∈ figureKinds, figurePath name kind = path := by
  rw [figurePaths, List.mem_flatMap]
  simp only [List.mem_map]

theorem length_figurePaths (names : List String) : (figurePaths names).length = 2 * names.length := by
  induction names with
  | nil => rfl
  | cons name names ih =>
    rw [figurePaths, List.flatMap_cons, List.length_append, List.length_map, ← figurePaths, ih,
      List.length_cons, Nat.mul_succ, Nat.add_comm]
    rfl

/-- **Files that are left**: two for each list of words. -/
theorem card_figurePaths {names : List String} (h : ∀ name ∈ names, FileName.IsPlain name) :
    (figurePaths names).toFinset.card = 2 * (names.map FileName.words).toFinset.card := by
  -- the file is made from the words alone
  let path (p : List String × String) : String := "_".intercalate p.1 ++ ("_" ++ p.2 ++ ".png")
  have hpath : ∀ name ∈ names, ∀ kind ∈ figureKinds, path (FileName.words name, kind) = figurePath name kind := by
    intro name hname kind hkind
    rw [figurePath_eq (h name hname) hkind, FileName.ofName_eq (h name hname)]
  have himage : (figurePaths names).toFinset =
      ((names.map FileName.words).toFinset ×ˢ figureKinds.toFinset).image path := by
    ext file
    simp only [List.mem_toFinset, mem_figurePaths, Finset.mem_image, Finset.mem_product, Prod.exists,
      List.mem_map]
    constructor
    · rintro ⟨name, hname, kind, hkind, rfl⟩
      exact ⟨_, kind, ⟨⟨name, hname, rfl⟩, hkind⟩, hpath name hname kind hkind⟩
    · rintro ⟨_, kind, ⟨⟨name, hname, rfl⟩, hkind⟩, rfl⟩
      exact ⟨name, hname, kind, hkind, (hpath name hname kind hkind).symm⟩
  -- two files are the same only for the same words and the same kind of figure
  have hinj : Set.InjOn path ((names.map FileName.words).toFinset ×ˢ figureKinds.toFinset : Finset _) := by
    rintro ⟨_, k⟩ hk ⟨_, l⟩ hl heq
    simp only [Finset.coe_product, Set.mem_prod, Finset.mem_coe, List.mem_toFinset, List.mem_map] at hk hl
    obtain ⟨⟨a, ha, rfl⟩, hk⟩ := hk
    obtain ⟨⟨b, hb, rfl⟩, hl⟩ := hl
    rw [hpath a ha k hk, hpath b hb l hl, figurePath_eq_iff (h a ha) (h b hb) hk hl] at heq
    exact Prod.ext heq.1 heq.2
  rw [himage, Finset.card_image_of_injOn hinj, Finset.card_product, Nat.mul_comm]
  rfl

theorem nodup_iff_card {α : Type} [DecidableEq α] {items : List α} :
    items.Nodup ↔ items.toFinset.card = items.length :=
  (Multiset.toFinset_card_eq_card_iff_nodup (m := (items : Multiset α))).symm

theorem nodup_figurePaths_iff {names : List String} (h : ∀ name ∈ names, FileName.IsPlain name) :
    (figurePaths names).Nodup ↔ (names.map FileName.words).Nodup := by
  rw [nodup_iff_card, nodup_iff_card, card_figurePaths h, length_figurePaths, List.length_map]
  omega

theorem figures_of_outcomeOf {a : Arguments R} {folder : String} (hfolder : given? a.figures = some folder)
    {opening : LogEntry} {results : List (StatementResult R)} {named : Bindings (Quantity R)}
    {outcome : Outcome R} (h : outcomeOf a opening results named = .ok outcome) :
    outcome.figures = some (figurePaths (uncertain named)) ∧
      LogEntry.savedFigures (figurePaths (uncertain named)).length folder ∈ outcome.log := by
  rw [outcomeOf] at h
  obtain ⟨summary, -, h⟩ := ok_of_bind h
  obtain ⟨figures, hfigures, h⟩ := ok_of_bind h
  rw [hfolder] at hfigures
  obtain ⟨found, hfound, hpure⟩ := ok_of_bind hfigures
  obtain ⟨files, hfiles, hpair⟩ := ok_of_bind hfound
  cases hpair
  cases hpure
  cases h
  rw [← flatten_figureFiles hfiles]
  exact ⟨rfl, List.mem_append_right _ (List.mem_singleton.mpr rfl)⟩

omit [Scalar R] in
theorem isPlain_of_mem_uncertain {named : Bindings (Quantity R)}
    (h : ∀ name ∈ named.names, Token.IsIdentifier name) : ∀ name ∈ uncertain named, FileName.IsPlain name := by
  intro name hname
  obtain ⟨e, he, rfl⟩ := List.mem_map.mp hname
  exact (h e.1 (List.mem_map_of_mem (List.mem_of_mem_filter he))).isPlain

end

/-! ## Variables whose figures can be drawn -/

/-- Either of two numbers. -/
def zeroOrOne : Quantity ℝ :=
  ⟨.sample ⟨0, [1]⟩, .one⟩

/-- Uncertain variables, all of one value. -/
def spread (names : List String) : Bindings (Quantity ℝ) :=
  ⟨names.map fun name => (name, zeroOrOne)⟩

/-- Arguments that ask for figures. -/
def askedFigures : Arguments ℝ :=
  ⟨"program.fermi", none, none, none, none, some "figures", none, false⟩

theorem exists_histogram {q : Quantity ℝ} (h : q.value.particles.suitsLogScale = false) (title : String) :
    ∃ f, Figure.histogram q (.whole Histogram.usualBins) ⟨some title, none, none⟩ = .ok f := by
  have hframe : (Figure.frameOf q ⟨some title, none, none⟩).logScale = false := h
  have hbins : Histogram.wholeBins (.whole Histogram.usualBins : Written ℝ) = .ok Histogram.usualBins := rfl
  have hmake := (Histogram.make_eq q.value.particles hbins (by decide) q.unit.text).trans
    (Histogram.ofSample_eq _ _ _)
  rw [Figure.histogram]
  simp only [hframe, hmake]
  exact ⟨_, rfl⟩

theorem exists_dotplot (q : Quantity ℝ) (options : FigureOptions) :
    ∃ f, Figure.dotplot q (.whole Dotplot.usualDots) options = .ok f := by
  have hrequire : Dotplot.requireDots (.whole Dotplot.usualDots : Written ℝ) = .ok ⟨⟩ := by
    have hdots : Dotplot.usualDots ≠ 0 := by decide
    simp [Dotplot.requireDots, Written.toScalar, hdots]
  obtain ⟨n, hplaces⟩ : ∃ n, Dotplot.places (.whole Dotplot.usualDots : Written ℝ) = .ok n := by
    simp [Dotplot.places]
  rw [Figure.dotplot, Dotplot.make, hrequire, hplaces]
  exact ⟨_, rfl⟩

theorem figureFiles_zeroOrOne (name : String) :
    figureFiles name zeroOrOne = .ok (figureKinds.map (figurePath name)) := by
  have hlinear : zeroOrOne.value.particles.suitsLogScale = false := by
    have hmin : zeroOrOne.value.particles.min ≤ 0 :=
      zeroOrOne.value.particles.isLeast_min.2 (List.mem_cons_self)
    simp [Sample.suitsLogScale, hmin]
  obtain ⟨bars, hbars⟩ := exists_histogram hlinear name
  obtain ⟨dots, hdots⟩ := exists_dotplot zeroOrOne ⟨some name, none, none⟩
  rw [figureFiles, if_neg (by decide)]
  simp only [FigureOptions.none, hbars, hdots]
  rfl

theorem exists_outcomeOf_spread (names : List String) :
    ∃ outcome, outcomeOf askedFigures (.evaluating "program.fermi" 2) [] (spread names) = .ok outcome := by
  have hfiles : ((spread names).entries.mapM fun e => figureFiles e.1 e.2) =
      .ok ((spread names).entries.map fun e => figureKinds.map (figurePath e.1)) := by
    refine mapM_of_ok fun e he => ?_
    obtain ⟨name, -, rfl⟩ := List.mem_map.mp he
    exact figureFiles_zeroOrOne name
  rw [outcomeOf]
  simp only [askedFigures, given?, hfiles]
  exact ⟨_, rfl⟩

/-! ## Files that are left -/

/-- **Figures overwrite each other exactly where words are the same.** An invocation that asks for figures
reports two for each uncertain variable. Two files are left for each list of words, so no figure is lost,
and the number that is reported is that of the files, if and only if the uncertain variables have
different words. -/
theorem figures_distinct_iff {R : Type} [Scalar R] {a : Arguments R} {folder : String}
    (hfolder : given? a.figures = some folder) {opening : LogEntry} {results : List (StatementResult R)} {named : Bindings (Quantity R)}
    (hnames : ∀ name ∈ named.names, Token.IsIdentifier name) {outcome : Outcome R}
    (h : outcomeOf a opening results named = .ok outcome) :
    ∃ files, outcome.figures = some files ∧ LogEntry.savedFigures files.length folder ∈ outcome.log ∧
      files.length = 2 * (uncertain named).length ∧
      files.toFinset.card = 2 * ((uncertain named).map FileName.words).toFinset.card ∧
      (files.Nodup ↔ ((uncertain named).map FileName.words).Nodup) ∧
      (files.length = files.toFinset.card ↔ ((uncertain named).map FileName.words).Nodup) := by
  have hplain := isPlain_of_mem_uncertain hnames
  obtain ⟨hfigures, hlog⟩ := figures_of_outcomeOf hfolder h
  have hdistinct := nodup_figurePaths_iff hplain
  refine ⟨_, hfigures, hlog, length_figurePaths _, card_figurePaths hplain, hdistinct, ?_⟩
  rw [← hdistinct, nodup_iff_card, eq_comm]

theorem snake_case_distinct : given? askedFigures.figures = some "figures" ∧
    (∀ name ∈ (spread ["flow_rate", "flow2rate"]).names, Token.IsIdentifier name) ∧
    ∃ outcome, outcomeOf askedFigures (.evaluating "program.fermi" 2) [] (spread ["flow_rate", "flow2rate"]) =
      .ok outcome ∧ ∃ files, outcome.figures = some files ∧ files.Nodup := by
  have hnames : ∀ name ∈ (spread ["flow_rate", "flow2rate"]).names, Token.IsIdentifier name := by
    have hall : ∀ name ∈ ["flow_rate", "flow2rate"], Token.IsIdentifier name := by
      simp only [List.forall_mem_cons]
      exact ⟨⟨_, rfl⟩, ⟨_, rfl⟩, by simp⟩
    exact hall
  obtain ⟨outcome, houtcome⟩ := exists_outcomeOf_spread ["flow_rate", "flow2rate"]
  obtain ⟨files, hfiles, -, -, -, hdistinct, -⟩ := figures_distinct_iff rfl hnames houtcome
  exact ⟨rfl, hnames, outcome, houtcome, files, hfiles, hdistinct.mpr (by decide)⟩

/-- Two variables with different names have the same files, so one figure of each kind overwrites the other
and four are reported where two are left. -/
theorem underscored_overwrites : (spread ["x", "_x"]).names.Nodup ∧
    (∀ name ∈ (spread ["x", "_x"]).names, Token.IsIdentifier name) ∧
    ∃ outcome, outcomeOf askedFigures (.evaluating "program.fermi" 2) [] (spread ["x", "_x"]) = .ok outcome ∧
      LogEntry.savedFigures 4 "figures" ∈ outcome.log ∧
      ∃ files, outcome.figures = some files ∧ ¬files.Nodup ∧ files.toFinset.card = 2 := by
  have hnames : ∀ name ∈ ["x", "_x"], Token.IsIdentifier name := by
    simp only [List.forall_mem_cons]
    exact ⟨⟨_, rfl⟩, ⟨_, rfl⟩, by simp⟩
  obtain ⟨outcome, houtcome⟩ := exists_outcomeOf_spread ["x", "_x"]
  obtain ⟨hfigures, hlog⟩ := figures_of_outcomeOf rfl houtcome
  have hplain : ∀ name ∈ ["x", "_x"], FileName.IsPlain name := fun name h => (hnames name h).isPlain
  refine ⟨by decide, hnames, outcome, houtcome, hlog, _, hfigures, ?_, ?_⟩
  · exact mt (nodup_figurePaths_iff hplain).mp (by decide)
  · exact (card_figurePaths hplain).trans (by decide)

end CommandLine

end Ballpark
