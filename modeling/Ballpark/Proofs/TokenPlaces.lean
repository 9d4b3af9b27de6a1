import Ballpark.Proofs.ProgramLines
import Mathlib.Data.Prod.Lex

/-!
# Places of tokens

A program's text is its tokens with nothing between them but what separates tokens (`Token.tiles_of_ofText`).
A token is told by the offset at which it starts (`Spot`), and an offset by its line and column, which
rise from one character to the next (`placeAt_lt`). The tokenizer goes from piece to piece: each one is a
newline, a comment up to the end of its line, blanks, or a word of one line (`Piece.Cut`), and moves the
tokenizer to the place behind its characters (`ScanPlace.Behind.after`). So a run lays its tokens out one
behind the other (`Token.Scans.exists_laid`), with the brackets of the tokens so far as its depth. What is
said of all tokens, and of every newline of the text, follows from that alone.
-/

namespace Ballpark

/-! ## Lines and columns -/

/-- The line and the column behind a text, counted from one. -/
def placeBehind (done : List Char) : Nat × Nat :=
  (done.count '\n' + 1, (done.reverse.takeWhile (· != '\n')).length + 1)

/-- The line and the column of an offset. -/
def placeAt (text : List Char) (offset : Nat) : Nat × Nat :=
  placeBehind (text.take offset)

theorem placeAt_append (done rest : List Char) : placeAt (done ++ rest) done.length = placeBehind done := by
  rw [placeAt, List.take_left]

theorem placeBehind_newline (done : List Char) :
    placeBehind (done ++ ['\n']) = ((placeBehind done).1 + 1, 1) := by
  simp [placeBehind, List.count_append]

/-- Within a line each character is one column. -/
theorem placeBehind_append (done : List Char) {more : List Char} (h : '\n' ∉ more) :
    placeBehind (done ++ more) = ((placeBehind done).1, (placeBehind done).2 + more.length) := by
  have hline : ∀ c ∈ more.reverse, (c != '\n') = true := by
    intro c hc
    rw [bne_iff_ne]
    rintro rfl
    exact h (List.mem_reverse.mp hc)
  rw [placeBehind, List.count_append, List.count_eq_zero.mpr h, List.reverse_append,
    List.takeWhile_append_of_pos hline, List.length_append, List.length_reverse]
  exact Prod.ext rfl (by simp only [placeBehind]; omega)

theorem placeBehind_lt (done : List Char) {more : List Char} (h : more ≠ []) :
    toLex (placeBehind done) < toLex (placeBehind (done ++ more)) := by
  rw [Prod.Lex.toLex_lt_toLex]
  by_cases hline : '\n' ∈ more
  · left
    have hpos := List.count_pos_iff.mpr hline
    simp only [placeBehind, List.count_append]
    omega
  · right
    have hpos := List.length_pos_of_ne_nil h
    rw [placeBehind_append done hline]
    exact ⟨rfl, by simp only; omega⟩

/-- **A later offset is at a later place**: on a later line, or on the same one in a later column. -/
theorem placeAt_lt {text : List Char} {m n : Nat} (hmn : m < n) (hn : n ≤ text.length) :
    toLex (placeAt text m) < toLex (placeAt text n) := by
  obtain ⟨k, rfl⟩ := Nat.exists_eq_add_of_lt hmn
  have hmore : (text.drop m).take (k + 1) ≠ [] := by
    apply List.ne_nil_of_length_pos
    rw [List.length_take, List.length_drop]
    omega
  rw [placeAt, placeAt, Nat.add_assoc, List.take_add]
  exact placeBehind_lt _ hmore

/-! ## What a piece is -/

/-- A front that a later line makes no difference to holds no newline. -/
theorem IsLineFront.newline_not_mem {front : List Char → List Char} (h : ∀ text, IsLineFront front text)
    (text : List Char) : '\n' ∉ front text := by
  intro hmem
  obtain ⟨line, more, hfront⟩ := List.append_of_mem hmem
  obtain ⟨rest, htext⟩ := (h text).isPrefix
  -- the front of the line alone would be as long as one that goes on behind the line
  have hline : front text = front line := by
    rw [← (h line).line (more ++ rest), ← htext, hfront, List.append_assoc, List.cons_append]
  have hle := (h line).isPrefix.length_le
  rw [← hline, hfront, List.length_append, List.length_cons] at hle
  omega

namespace Piece

/-- A piece that the tokenizer may cut off before `rest`, with all that it may find. -/
inductive Cut : Piece → List Char → Prop
  | newline (rest : List Char) : Cut (.token .newline ['\n']) rest
  | comment {body rest : List Char} (hbody : '\n' ∉ body) (hend : rest = [] ∨ rest.head? = some '\n') :
    Cut (.gap ('#' :: body)) rest
  | blanks {blanks : List Char} (rest : List Char) (hblanks : ∀ c ∈ blanks, isGap c = true) :
    Cut (.gap blanks) rest
  | word {kind : TokenKind} {word : List Char} (rest : List Char) (hnewline : kind ≠ .newline)
    (hfinish : kind ≠ .finish) (hword : word ≠ []) (hline : '\n' ∉ word) : Cut (.token kind word) rest

theorem Cut.of_front {front : List Char → List Char} (hfront : ∀ text, IsLineFront front text)
    {text : List Char} {kind : TokenKind} (hnewline : kind ≠ .newline) (hfinish : kind ≠ .finish)
    (hsome : front text ≠ []) (rest : List Char) : Cut (.token kind (front text)) rest :=
  .word rest hnewline hfinish hsome (IsLineFront.newline_not_mem hfront text)

theorem cut_of_front? {text : List Char} {piece : Piece} (h : front? text = some piece) :
    piece.Cut (text.drop piece.chars.length) := by
  cases isFirst_of_front? h with
  | newline rest => exact .newline rest
  | comment rest =>
    -- the characters of a comment are not the end of a line, and the next one is
    refine .comment (fun hmem => absurd (List.mem_takeWhile_imp hmem) (by simp)) ?_
    have hrest : (rest.takeWhile (· != '\n') ++ rest.dropWhile (· != '\n')).drop
        (rest.takeWhile (· != '\n')).length = rest.dropWhile (· != '\n') := List.drop_left
    rw [List.takeWhile_append_dropWhile] at hrest
    show rest.drop (rest.takeWhile (· != '\n')).length = [] ∨
      (rest.drop (rest.takeWhile (· != '\n')).length).head? = some '\n'
    rw [hrest]
    have hhead := List.head?_dropWhile_not (· != '\n') rest
    cases hmore : rest.dropWhile (· != '\n') with
    | nil => exact .inl rfl
    | cons d more =>
      rw [hmore] at hhead
      exact .inr (by simpa using hhead)
  | blanks => exact .blanks _ fun _ hmem => List.mem_takeWhile_imp hmem
  | number hsome => exact .of_front numberFront_line (by decide) (by decide) hsome _
  | label hsome => exact .of_front labelFront_line (by decide) (by decide) hsome _
  | name hsome => exact .of_front nameFront_line (by decide) (by decide) hsome _
  | mark hsome => exact .of_front markFront_line (by decide) (by decide) hsome _

end Piece

/-! ## A text as its tokens -/

/-- A token with the offset at which it starts. -/
structure Spot where
  start : Nat
  token : Token

/-- The offset behind a token. -/
def Spot.stop (s : Spot) : Nat :=
  s.start + s.token.text.length

/-- What stands in a text before the rest of it separates tokens: blanks, comments that run to the end of
their line, and newlines where brackets are open. -/
inductive Separates (depth : Nat) : List Char → List Char → Prop
  | nothing (rest : List Char) : Separates depth rest rest
  | blank {c : Char} {text rest : List Char} (hc : c = ' ' ∨ c = '\t' ∨ c = '\r')
    (h : Separates depth text rest) : Separates depth (c :: text) rest
  | comment {body text rest : List Char} (hbody : '\n' ∉ body)
    (hend : text = [] ∨ text.head? = some '\n') (h : Separates depth text rest) :
    Separates depth ('#' :: body ++ text) rest
  | newline {text rest : List Char} (hdepth : 0 < depth) (h : Separates depth text rest) :
    Separates depth ('\n' :: text) rest

/-- A newline among what separates stands in brackets. -/
theorem Separates.depth_pos_of_getElem? {depth : Nat} {text rest : List Char} (h : Separates depth text rest)
    {i : Nat} (hi : i + rest.length < text.length) (hnewline : text[i]? = some '\n') : 0 < depth := by
  induction h generalizing i with
  | nothing rest => omega
  | @blank c text rest hc h ih =>
    rcases i with _ | i
    · cases hnewline
      simp at hc
    · exact ih (by simp at hi; omega) hnewline
  | @comment body text rest hbody hend h ih =>
    rcases Nat.lt_or_ge i ('#' :: body).length with hin | hbehind
    · rw [List.getElem?_append_left hin] at hnewline
      exact absurd (List.mem_of_getElem? hnewline) (by simpa using hbody)
    · rw [List.getElem?_append_right hbehind] at hnewline
      rw [List.length_append] at hi
      exact ih (by omega) hnewline
  | newline hdepth h ih => exact hdepth

theorem Separates.depth_pos {depth : Nat} {text : List Char} {start stop offset : Nat}
    (h : Separates depth (text.drop start) (text.drop stop)) (hstart : start ≤ offset)
    (hstop : offset < stop) (hnewline : text[offset]? = some '\n') : 0 < depth := by
  have hlength := (List.getElem?_eq_some_iff.mp hnewline).1
  refine h.depth_pos_of_getElem? (i := offset - start) ?_ ?_
  · rw [List.length_drop, List.length_drop]
    omega
  · rw [List.getElem?_drop, Nat.add_sub_cancel' hstart, hnewline]

namespace Token

/-- The brackets that are open behind a token; a closing one that nothing opened is not counted. -/
def depthBehind (depth : Nat) (t : Token) : Nat :=
  if t.text = "(" ∨ t.text = "\x7b" then depth + 1
  else if t.text = ")" ∨ t.text = "\x7d" then depth - 1
  else depth

/-- The brackets that tokens leave open. -/
def bracketDepth (tokens : List Token) : Nat :=
  tokens.foldl depthBehind 0

/-- The tokens of a text, each where it stands, with nothing but separators between them. -/
structure Tiles (text : List Char) (spots : List Spot) : Prop where
  /-- A token's text is that of the program at the token's line and column. -/
  stands : ∀ s ∈ spots, s.start ≤ text.length ∧ placeAt text s.start = (s.token.line, s.token.column) ∧
    s.token.text.toList <+: text.drop s.start
  /-- Tokens do not overlap, and their places rise. -/
  ordered : spots.Pairwise fun s r => s.stop ≤ r.start ∧
    toLex (s.token.line, s.token.column) < toLex (r.token.line, r.token.column)
  /-- Between the tokens so far and the next one stands what separates tokens. -/
  separated : ∀ before s after, spots = before ++ s :: after →
    Separates (bracketDepth (before.map Spot.token))
      (text.drop ((before.getLast?.map Spot.stop).getD 0)) (text.drop s.start)
  /-- A newline is a token where the tokens before it leave no bracket open, and only there. -/
  newline_iff : ∀ offset, text[offset]? = some '\n' →
    ((∃ s ∈ spots, s.start = offset ∧ s.token.kind = .newline) ↔
      bracketDepth ((spots.filter (·.start < offset)).map Spot.token) = 0)
  /-- The last token, and no other, marks the end of the text. -/
  finish : ∃ before last, spots = before ++ [last] ∧ (∀ s ∈ before, s.token.kind ≠ .finish) ∧
    last.start = text.length ∧ last.token.kind = .finish ∧ last.token.text = ""

end Token

/-- A token where it stands; a newline is one of its own, and only outside of brackets. -/
structure Spot.Stands (text : List Char) (depth : Nat) (s : Spot) : Prop where
  place : placeAt text s.start = (s.token.line, s.token.column)
  isPrefix : s.token.text.toList <+: text.drop s.start
  ne_empty : s.token.text ≠ ""
  not_finish : s.token.kind ≠ .finish
  of_newline_mem : '\n' ∈ s.token.text.toList → s.token.kind = .newline
  newline : s.token.kind = .newline → s.token.text = "\n" ∧ depth = 0

theorem Spot.Stands.start_lt_stop {text : List Char} {depth : Nat} {s : Spot} (h : s.Stands text depth) :
    s.start < s.stop ∧ s.stop ≤ text.length := by
  have hle := h.isPrefix.length_le
  have hpos : 0 < s.token.text.length := by
    rw [← String.length_toList]
    exact List.length_pos_of_ne_nil (mt String.toList_eq_nil_iff.mp h.ne_empty)
  rw [String.length_toList, List.length_drop] at hle
  rw [Spot.stop]
  omega

theorem Spot.Stands.mem_of_getElem? {text : List Char} {depth : Nat} {s : Spot} (h : s.Stands text depth)
    {offset : Nat} {c : Char} (hstart : s.start ≤ offset) (hstop : offset < s.stop)
    (hc : text[offset]? = some c) : c ∈ s.token.text.toList := by
  obtain ⟨rest, hrest⟩ := h.isPrefix
  have hlt : offset - s.start < s.token.text.toList.length := by
    rw [String.length_toList]
    rw [Spot.stop] at hstop
    omega
  have hdrop : (text.drop s.start)[offset - s.start]? = some c := by
    rw [List.getElem?_drop, Nat.add_sub_cancel' hstart, hc]
  rw [← hrest, List.getElem?_append_left hlt] at hdrop
  exact List.mem_of_getElem? hdrop

namespace Token

/-- Tokens laid out one behind the other from an offset on, where `depth` brackets are open, up to the
end of the text. -/
inductive Laid (text : List Char) : Nat → Nat → List Spot → Prop
  | finish {stop depth line column : Nat} (hstop : stop ≤ text.length)
    (hgap : Separates depth (text.drop stop) (text.drop text.length))
    (hplace : placeAt text text.length = (line, column)) :
    Laid text stop depth [⟨text.length, ⟨.finish, "", line, column⟩⟩]
  | token {stop depth : Nat} {s : Spot} {spots : List Spot} (hstop : stop ≤ s.start)
    (hgap : Separates depth (text.drop stop) (text.drop s.start)) (hs : s.Stands text depth)
    (h : Laid text s.stop (depthBehind depth s.token) spots) : Laid text stop depth (s :: spots)

/-- What stands before a separated text and separates too goes to the gap before the first token. -/
theorem Laid.behind {text : List Char} {stop stop' depth : Nat} {spots : List Spot}
    (h : Laid text stop' depth spots) (hstop : stop ≤ stop')
    (hgap : ∀ rest, Separates depth (text.drop stop') rest → Separates depth (text.drop stop) rest) :
    Laid text stop depth spots := by
  cases h with
  | finish hle hrest hplace => exact .finish (hstop.trans hle) (hgap _ hrest) hplace
  | token hle hrest hs h => exact .token (hstop.trans hle) (hgap _ hrest) hs h

end Token

/-! ## What a run of the tokenizer lays out -/

namespace ScanPlace

/-- The tokenizer stands behind a text. -/
def Behind (p : ScanPlace) (done : List Char) : Prop :=
  placeBehind done = (p.line, p.column)

/-- The token that a word of one line is at a place. -/
def wordAt (p : ScanPlace) (kind : TokenKind) (word : List Char) : Token :=
  ⟨kind, String.ofList word, p.line, p.column⟩

theorem token?_word {kind : TokenKind} (hkind : kind ≠ .newline) (p : ScanPlace) (word : List Char) :
    p.token? (.token kind word) = some (p.wordAt kind word) := by
  rw [token?, wordAt]
  exact hkind

theorem after_word {kind : TokenKind} (hkind : kind ≠ .newline) (p : ScanPlace) (word : List Char) :
    p.after (.token kind word) =
      ⟨p.line, p.column + word.length, Token.depthBehind p.depth (p.wordAt kind word)⟩ := by
  have hmark : ∀ mark : List Char, (word == mark) = true ↔ String.ofList word = String.ofList mark := by
    intro mark
    rw [beq_iff_eq, String.ofList_inj]
  rw [after]
  · simp only [Bool.or_eq_true, hmark]
    rfl
  · exact hkind

/-- **A piece moves the tokenizer behind its characters.** -/
theorem Behind.after {p : ScanPlace} {done rest : List Char} (h : p.Behind done) {piece : Piece}
    (hpiece : piece.Cut rest) : (p.after piece).Behind (done ++ piece.chars) := by
  have hline : ∀ more : List Char, '\n' ∉ more →
      placeBehind (done ++ more) = (p.line, p.column + more.length) := by
    intro more hmore
    rw [placeBehind_append done hmore, h]
  cases hpiece with
  | newline rest => exact (placeBehind_newline done).trans (by rw [h]; rfl)
  | @comment body rest hbody hend => exact hline ('#' :: body) (by simpa using hbody)
  | blanks rest hblanks => exact hline _ fun hmem => absurd (hblanks _ hmem) (by decide)
  | word rest hnewline hfinish hword hnone =>
    rw [after_word hnewline]
    exact hline _ hnone

end ScanPlace

theorem Separates.of_blanks {depth : Nat} {blanks text rest : List Char}
    (hblanks : ∀ c ∈ blanks, Piece.isGap c = true) (h : Separates depth text rest) :
    Separates depth (blanks ++ text) rest := by
  induction blanks with
  | nil => exact h
  | cons c blanks ih =>
    obtain ⟨hc, hmore⟩ := List.forall_mem_cons.mp hblanks
    refine .blank ?_ (ih hmore)
    simpa [Piece.isGap, or_assoc] using hc

namespace Token

/-- A token where the tokenizer stands goes before what is laid out behind it. -/
theorem Laid.word {p : ScanPlace} {done word rest : List Char} {kind : TokenKind} {spots : List Spot}
    (hp : p.Behind done) (hword : word ≠ []) (hfinish : kind ≠ .finish)
    (hline : '\n' ∈ word → kind = .newline) (hnewline : kind = .newline → word = ['\n'] ∧ p.depth = 0)
    (h : Laid (done ++ (word ++ rest)) (done ++ word).length (depthBehind p.depth (p.wordAt kind word)) spots) :
    Laid (done ++ (word ++ rest)) done.length p.depth (⟨done.length, p.wordAt kind word⟩ :: spots) := by
  have hchars : (p.wordAt kind word).text.toList = word := String.toList_ofList
  have hstop : Spot.stop ⟨done.length, p.wordAt kind word⟩ = (done ++ word).length := by
    rw [Spot.stop, List.length_append, ← String.length_toList, hchars]
  rw [← hstop] at h
  refine .token (Nat.le_refl _) (.nothing _) ?_ h
  exact
    { place := (placeAt_append done (word ++ rest)).trans hp
      isPrefix := by
        rw [List.drop_left, hchars]
        exact List.prefix_append word rest
      ne_empty := fun hempty => hword (by rw [← hchars, hempty]; rfl)
      not_finish := hfinish
      of_newline_mem := fun hmem => hline (hchars ▸ hmem)
      newline := fun hkind => ⟨congrArg String.ofList (hnewline hkind).1, (hnewline hkind).2⟩ }

/-- **A run lays its tokens out**: behind what it has read stand the tokens of the rest of the text. -/
theorem Scans.exists_laid {p q : ScanPlace} {text : List Char} {tokens : List Token}
    (h : Scans p text tokens q) {done : List Char} (hp : p.Behind done) :
    ∃ spots, spots.map Spot.token = tokens ++ [finishAt q] ∧
      Laid (done ++ text) done.length p.depth spots := by
  induction h generalizing done with
  | nil p =>
    rw [List.append_nil]
    exact ⟨_, rfl, .finish (Nat.le_refl _) (.nothing _) (by rw [placeAt, List.take_length, hp])⟩
  | @piece p q text piece tokens hpiece h ih =>
    obtain ⟨⟨⟨rest, rfl⟩, -⟩, -⟩ := Piece.front?_line hpiece
    have hcut := Piece.cut_of_front? hpiece
    obtain ⟨spots, hspots, hlaid⟩ := ih (hp.after hcut)
    rw [List.drop_left] at hcut hlaid
    rw [List.append_assoc] at hlaid
    -- a piece that is no token is part of the gap before the next one
    have hgap : (p.token? piece).toList = [] → (p.after piece).depth = p.depth →
        (∀ later, Separates p.depth rest later → Separates p.depth (piece.chars ++ rest) later) →
        ∃ spots, spots.map Spot.token = (p.token? piece).toList ++ tokens ++ [finishAt q] ∧
          Laid (done ++ (piece.chars ++ rest)) done.length p.depth spots := by
      intro hnone hdepth hseparates
      rw [hdepth] at hlaid
      refine ⟨spots, by rw [hnone, hspots]; rfl, hlaid.behind ?_ fun later hlater => ?_⟩
      · rw [List.length_append]
        exact Nat.le_add_right _ _
      · rw [← List.append_assoc, List.drop_left] at hlater
        rw [List.drop_left]
        exact hseparates later hlater
    cases hcut with
    | newline rest =>
      by_cases hdepth : p.depth = 0
      · have htoken : p.token? (.token .newline ['\n']) = some (p.wordAt .newline ['\n']) := by
          rw [ScanPlace.token?, if_pos hdepth]
          rfl
        refine ⟨⟨done.length, p.wordAt .newline ['\n']⟩ :: spots, ?_,
          .word hp (List.cons_ne_nil _ _) (by decide) (fun _ => rfl) (fun _ => ⟨rfl, hdepth⟩) hlaid⟩
        rw [htoken, List.map_cons, hspots]
        rfl
      · refine hgap ?_ rfl fun later => .newline (Nat.pos_of_ne_zero hdepth)
        rw [ScanPlace.token?, if_neg hdepth]
        rfl
    | comment hbody hend => exact hgap rfl rfl fun later => .comment hbody hend
    | blanks rest hblanks => exact hgap rfl rfl fun later => .of_blanks hblanks
    | @word kind word rest hnewline hfinish hword hnone =>
      rw [ScanPlace.after_word hnewline] at hlaid
      refine ⟨⟨done.length, p.wordAt kind word⟩ :: spots, ?_,
        .word hp hword hfinish (absurd · hnone) (absurd · hnewline) hlaid⟩
      rw [ScanPlace.token?_word hnewline, List.map_cons, hspots]
      rfl

/-! ## What is said of all tokens -/

namespace Laid

variable {text : List Char} {stop depth : Nat} {spots : List Spot}

theorem stop_le_start (h : Laid text stop depth spots) : ∀ s ∈ spots, stop ≤ s.start := by
  induction h with
  | finish hstop hgap hplace => exact List.forall_mem_singleton.mpr hstop
  | @token stop depth s spots hstop hgap hs h ih =>
    refine List.forall_mem_cons.mpr ⟨hstop, fun r hr => ?_⟩
    have hr := ih r hr
    have hs := hs.start_lt_stop
    omega

theorem stands (h : Laid text stop depth spots) : ∀ s ∈ spots,
    s.start ≤ text.length ∧ placeAt text s.start = (s.token.line, s.token.column) ∧
      s.token.text.toList <+: text.drop s.start := by
  induction h with
  | finish hstop hgap hplace =>
    exact List.forall_mem_singleton.mpr ⟨Nat.le_refl _, hplace, List.nil_prefix⟩
  | token hstop hgap hs h ih =>
    obtain ⟨hlt, hle⟩ := hs.start_lt_stop
    exact List.forall_mem_cons.mpr ⟨⟨(Nat.le_of_lt hlt).trans hle, hs.place, hs.isPrefix⟩, ih⟩

theorem ordered (h : Laid text stop depth spots) : spots.Pairwise fun s r => s.stop ≤ r.start ∧
    toLex (s.token.line, s.token.column) < toLex (r.token.line, r.token.column) := by
  induction h with
  | finish hstop hgap hplace => exact List.pairwise_singleton _ _
  | token hstop hgap hs h ih =>
    refine List.pairwise_cons.mpr ⟨fun r hr => ?_, ih⟩
    have hbehind := h.stop_le_start r hr
    obtain ⟨hend, hplace, -⟩ := h.stands r hr
    rw [← hs.place, ← hplace]
    exact ⟨hbehind, placeAt_lt (Nat.lt_of_lt_of_le hs.start_lt_stop.1 hbehind) hend⟩

theorem separated (h : Laid text stop depth spots) : ∀ before s after, spots = before ++ s :: after →
    Separates ((before.map Spot.token).foldl depthBehind depth)
      (text.drop ((before.getLast?.map Spot.stop).getD stop)) (text.drop s.start) := by
  induction h with
  | @finish stop depth line column hstop hgap hplace =>
    intro before s after hsplit
    rcases before with _ | ⟨b, before⟩
    · obtain ⟨rfl, -⟩ := List.cons.inj hsplit
      exact hgap
    · simp at hsplit
  | @token stop depth r spots hstop hgap hs h ih =>
    intro before s after hsplit
    rcases before with _ | ⟨b, before⟩
    · obtain ⟨rfl, -⟩ := List.cons.inj hsplit
      exact hgap
    · obtain ⟨rfl, hrest⟩ := List.cons.inj hsplit
      have hlater := ih before s after hrest
      rw [Option.getD_map] at hlater
      rw [List.getLast?_cons, Option.map_some, Option.getD_some]
      exact hlater

theorem finish_last (h : Laid text stop depth spots) : ∃ before last, spots = before ++ [last] ∧
    (∀ s ∈ before, s.token.kind ≠ .finish) ∧ last.start = text.length ∧ last.token.kind = .finish ∧
      last.token.text = "" := by
  induction h with
  | finish hstop hgap hplace => exact ⟨[], _, rfl, by simp, rfl, rfl, rfl⟩
  | @token stop depth r spots hstop hgap hs h ih =>
    obtain ⟨before, last, rfl, hbefore, hlast⟩ := ih
    exact ⟨r :: before, last, rfl, List.forall_mem_cons.mpr ⟨hs.not_finish, hbefore⟩, hlast⟩

theorem filter_eq_nil (h : Laid text stop depth spots) {offset : Nat} (hoffset : offset ≤ stop) :
    spots.filter (·.start < offset) = [] := by
  rw [List.filter_eq_nil_iff]
  intro s hs
  have hstart := h.stop_le_start s hs
  simp only [decide_eq_true_eq]
  omega

/-- **A newline is a token where no bracket is open**, and only there. -/
theorem newline_iff (h : Laid text stop depth spots) {offset : Nat} (hoffset : stop ≤ offset)
    (hnewline : text[offset]? = some '\n') :
    (∃ s ∈ spots, s.start = offset ∧ s.token.kind = .newline) ↔
      ((spots.filter (·.start < offset)).map Spot.token).foldl depthBehind depth = 0 := by
  have hlength := (List.getElem?_eq_some_iff.mp hnewline).1
  induction h with
  | @finish stop depth line column hstop hgap hplace =>
    have hdepth := hgap.depth_pos hoffset hlength hnewline
    have hnone : ¬text.length < offset := Nat.not_lt.mpr (Nat.le_of_lt hlength)
    simp [hnone, Nat.ne_of_gt hdepth]
  | @token stop depth r spots hstop hgap hs h ih =>
    obtain ⟨hlt, hle⟩ := hs.start_lt_stop
    rcases Nat.lt_or_ge offset r.start with hbefore | hfrom
    · -- it stands before the token, among what separates
      have hdepth := hgap.depth_pos hoffset hbefore hnewline
      have hlaid : Laid text r.start depth (r :: spots) := .token (Nat.le_refl _) (.nothing _) hs h
      rw [hlaid.filter_eq_nil (Nat.le_of_lt hbefore)]
      refine ⟨?_, fun hzero => absurd hzero (Nat.ne_of_gt hdepth)⟩
      rintro ⟨s, hmem, rfl, -⟩
      exact absurd (hlaid.stop_le_start s hmem) (Nat.not_le.mpr hbefore)
    rcases Nat.lt_or_ge offset r.stop with hwithin | hbehind
    · -- it is a character of the token, which then is this newline
      have hkind := hs.of_newline_mem (hs.mem_of_getElem? hfrom hwithin hnewline)
      obtain ⟨htext, hdepth⟩ := hs.newline hkind
      have hstart : r.start = offset := by
        have hone : r.stop = r.start + 1 := congrArg (r.start + String.length ·) htext
        omega
      have hlaid : Laid text r.start depth (r :: spots) := .token (Nat.le_refl _) (.nothing _) hs h
      rw [hlaid.filter_eq_nil (Nat.le_of_eq hstart.symm)]
      exact ⟨fun _ => hdepth, fun _ => ⟨r, List.mem_cons_self, hstart, hkind⟩⟩
    · have hbefore : r.start < offset := Nat.lt_of_lt_of_le hlt hbehind
      rw [List.filter_cons_of_pos (by simpa using hbefore), List.map_cons, List.foldl_cons]
      refine Iff.trans ?_ (ih hbehind)
      simp only [List.exists_mem_cons_iff, Nat.ne_of_lt hbefore, false_and, false_or]

/-- Tokens laid out from the start of a text with no bracket open tile it. -/
theorem tiles (h : Laid text 0 0 spots) : Tiles text spots :=
  { stands := h.stands
    ordered := h.ordered
    separated := h.separated
    newline_iff := fun _ => h.newline_iff (Nat.zero_le _)
    finish := h.finish_last }

end Laid

/-- **Tokenizing loses nothing.** The tokens of a text stand where they say, one behind the other, with
nothing between them but blanks, comments and newlines in brackets; a newline is a token exactly where no
bracket is open, and the last token is the end of the text. -/
theorem tiles_of_ofText {source : String} {tokens : List Token} (h : ofText source = .ok tokens) :
    ∃ spots, spots.map Spot.token = tokens ∧ Tiles source.toList spots := by
  obtain ⟨before, q, hscans, rfl⟩ := scans_of_scan h
  have hstart : ScanPlace.start.Behind [] := rfl
  obtain ⟨spots, hspots, hlaid⟩ := hscans.exists_laid hstart
  exact ⟨spots, hspots, hlaid.tiles⟩

theorem call_tiled : ∃ tokens spots, ofText "f(x,\n 1..2) # a call\ny" = .ok tokens ∧
    spots.map Spot.token = tokens ∧ Tiles "f(x,\n 1..2) # a call\ny".toList spots := by
  have hsource : (ofText "f(x,\n 1..2) # a call\ny").toBool = true := by decide +kernel
  cases htokens : ofText "f(x,\n 1..2) # a call\ny" with
  | error f =>
    rw [htokens] at hsource
    cases hsource
  | ok tokens =>
    obtain ⟨spots, hspots, htiles⟩ := tiles_of_ofText htokens
    exact ⟨tokens, spots, rfl, hspots, htiles⟩

end Token

end Ballpark
