import Ballpark.Proofs.LineReading
import Ballpark.Proofs.UnitLetters
import Ballpark.Session.Run

/-!
# Programs line by line

A program is read and run line by line, wherever no bracket is open at the end of a line. No piece of
the text reaches over the end of its line (`Piece.front?_line`), so the tokens up to there are the same
whatever follows, and behind it the tokenizer starts anew at another place (`Token.ofText_lines`). The
readers then make of the tokens before the newline what they make of them before the end of the text
(`TokenReader.ReadsAs.of_extends`), and so the statements of the lines are put one behind the other
(`Node.statementsOfText_lines`). A run goes from statement to statement, so it falls into two runs at the
same place (`Session.run_lines`).
-/

namespace Ballpark

/-! ## Pieces end with their lines -/

/-- The front of a text is a prefix of it, and what stands behind the line makes no difference. -/
structure IsLineFront (front : List Char → List Char) (text : List Char) : Prop where
  isPrefix : front text <+: text
  line : ∀ more, front (text ++ '\n' :: more) = front text

namespace IsLineFront

theorem takeWhile {p : Char → Bool} (hp : p '\n' = false) (text : List Char) :
    IsLineFront (·.takeWhile p) text := by
  refine ⟨List.takeWhile_prefix p, fun more => ?_⟩
  induction text with
  | nil =>
    show ('\n' :: more).takeWhile p = []
    rw [List.takeWhile_cons_of_neg (by simp [hp])]
  | cons c text ih =>
    show (c :: (text ++ '\n' :: more)).takeWhile p = (c :: text).takeWhile p
    rw [List.takeWhile_cons, List.takeWhile_cons]
    simp only [ih]

theorem digits (text : List Char) : IsLineFront (·.takeWhile Text.isDigit) text :=
  .takeWhile (by decide) text

end IsLineFront

namespace Piece

open Text

theorem head?_line (text more : List Char) {c : Char} (hc : c ≠ '\n') :
    (text ++ '\n' :: more).head? = some c ↔ text.head? = some c := by
  rcases text with _ | ⟨d, text⟩
  · simp [hc.symm]
  · rfl

/-- The digits and the point of a number, where a point follows the first digits. -/
theorem mantissaFront_point {text rest : List Char}
    (h : text.drop (text.takeWhile isDigit).length = '.' :: rest) :
    mantissaFront text =
      if (text.takeWhile isDigit).isEmpty then
        (if (rest.takeWhile isDigit).isEmpty then [] else '.' :: rest.takeWhile isDigit)
      else if rest.head? == some '.' then text.takeWhile isDigit
      else text.takeWhile isDigit ++ '.' :: rest.takeWhile isDigit := by
  rw [mantissaFront, h]
  rfl

theorem mantissaFront_whole {text : List Char}
    (h : (text.drop (text.takeWhile isDigit).length).head? ≠ some '.') :
    mantissaFront text = text.takeWhile isDigit := by
  rw [mantissaFront]
  dsimp only
  split
  · rename_i hpoint
    rw [hpoint] at h
    exact absurd rfl h
  · rfl

theorem mantissaFront_line (text : List Char) : IsLineFront mantissaFront text := by
  have hwhole := IsLineFront.digits text
  have hback := List.prefix_iff_eq_append.mp hwhole.isPrefix
  by_cases hpoint : (text.drop (text.takeWhile isDigit).length).head? = some '.'
  · obtain ⟨rest, hrest⟩ := List.head?_eq_some_iff.mp hpoint
    have hplaces := IsLineFront.digits rest
    have htext : text.takeWhile isDigit ++ '.' :: rest = text := by rw [← hrest, hback]
    refine ⟨?_, fun more => ?_⟩
    · rw [mantissaFront_point hrest]
      -- without digits in front of the point there must be digits behind it
      split
      · rename_i hempty
        rw [List.isEmpty_iff.mp hempty, List.nil_append] at htext
        split
        · exact List.nil_prefix
        · rw [← htext]
          exact (List.prefix_cons_inj '.').mpr hplaces.isPrefix
      · split
        · exact hwhole.isPrefix
        · have hfront := (List.prefix_append_right_inj (text.takeWhile isDigit)).mpr
            ((List.prefix_cons_inj '.').mpr hplaces.isPrefix)
          rwa [htext] at hfront
    · -- the end of a line is no digit, so the digits end there, too
      have hline : (text ++ '\n' :: more).drop ((text ++ '\n' :: more).takeWhile isDigit).length =
          '.' :: (rest ++ '\n' :: more) := by
        rw [hwhole.line, List.drop_append_of_le_length hwhole.isPrefix.length_le, hrest]
        rfl
      -- nor is it a second point
      have hhead : ((rest ++ '\n' :: more).head? == some '.') = (rest.head? == some '.') := by
        rw [Bool.eq_iff_iff, beq_iff_eq, beq_iff_eq]
        exact head?_line rest more (by decide)
      rw [mantissaFront_point hrest, mantissaFront_point hline, hwhole.line, hplaces.line, hhead]
  · refine ⟨?_, fun more => ?_⟩
    · rw [mantissaFront_whole hpoint]
      exact hwhole.isPrefix
    · rw [mantissaFront_whole hpoint, mantissaFront_whole, hwhole.line]
      rw [hwhole.line, List.drop_append_of_le_length hwhole.isPrefix.length_le]
      exact mt (head?_line _ _ (by decide)).mp hpoint

theorem powerFront_line (text : List Char) : IsLineFront Decimal.powerFront text := by
  refine ⟨(UnitToken.isFront_powerFront text).isPrefix, fun more => ?_⟩
  rcases text with _ | ⟨mark, text⟩
  · rfl
  rcases hmark : Decimal.isExponentMark mark with _ | _
  · unfold Decimal.powerFront
    simp only [List.cons_append, hmark, Bool.false_eq_true, if_false]
  obtain ⟨sign, body, rfl, hsign⟩ := UnitToken.exists_sign text
  have hsign' : sign = ['-'] ∨ sign = ['+'] ∨
      sign = [] ∧ (body ++ '\n' :: more).head? ≠ some '-' ∧ (body ++ '\n' :: more).head? ≠ some '+' :=
    hsign.imp_right (·.imp_right fun ⟨hnil, hminus, hplus⟩ =>
      ⟨hnil, mt (head?_line _ _ (by decide)).mp hminus, mt (head?_line _ _ (by decide)).mp hplus⟩)
  rw [List.cons_append, List.append_assoc, UnitToken.powerFront_signed hmark hsign,
    UnitToken.powerFront_signed hmark hsign', (IsLineFront.digits body).line more]

theorem numberFront_line (text : List Char) : IsLineFront numberFront text := by
  have hmantissa := mantissaFront_line text
  have hback := List.prefix_iff_eq_append.mp hmantissa.isPrefix
  have hpower := powerFront_line (text.drop (mantissaFront text).length)
  refine ⟨?_, fun more => ?_⟩
  · rw [numberFront]
    split
    · exact List.nil_prefix
    · have hfront := (List.prefix_append_right_inj (mantissaFront text)).mpr hpower.isPrefix
      rwa [hback] at hfront
  · rw [numberFront, numberFront, hmantissa.line]
    split
    · rfl
    · rw [List.drop_append_of_le_length hmantissa.isPrefix.length_le, hpower.line]

theorem labelFront_cons (tick c : Char) (rest : List Char) : labelFront (tick :: c :: rest) =
    if tick = '\'' ∧ startsLabel c then tick :: c :: rest.takeWhile Text.isWord else [] := by
  by_cases htick : tick = '\''
  · subst htick
    rw [labelFront]
    simp only [true_and]
  · rw [if_neg (fun h => htick h.1), labelFront.eq_def]
    split
    · rename_i heq
      exact absurd (List.cons.inj heq).1 htick
    · rfl

theorem labelFront_line (text : List Char) : IsLineFront labelFront text := by
  rcases text with _ | ⟨tick, _ | ⟨c, rest⟩⟩
  · refine ⟨List.nil_prefix, fun more => ?_⟩
    rcases more with _ | ⟨d, more⟩
    · rfl
    · exact (labelFront_cons _ _ _).trans (if_neg fun h => absurd h.1 (by decide))
  · have hnone : labelFront [tick] = [] := by
      rw [labelFront]
      simp
    refine ⟨by rw [hnone]; exact List.nil_prefix, fun more => ?_⟩
    rw [hnone]
    exact (labelFront_cons _ _ _).trans (if_neg fun h => absurd h.2 (by decide))
  · have hword := IsLineFront.takeWhile (p := Text.isWord) (by decide) rest
    refine ⟨?_, fun more => ?_⟩
    · rw [labelFront_cons]
      split
      · exact (List.prefix_append_right_inj [tick, c]).mpr hword.isPrefix
      · exact List.nil_prefix
    · rw [List.cons_append, List.cons_append, labelFront_cons, labelFront_cons, hword.line]

theorem nameFront_line (text : List Char) : IsLineFront nameFront text := by
  rcases text with _ | ⟨c, rest⟩
  · refine ⟨List.nil_prefix, fun more => ?_⟩
    rw [List.nil_append, nameFront, if_neg (by decide), nameFront]
  · have hword := IsLineFront.takeWhile (p := continuesName) (by decide) rest
    refine ⟨?_, fun more => ?_⟩
    · rw [nameFront]
      split
      · exact (List.prefix_cons_inj c).mpr hword.isPrefix
      · exact List.nil_prefix
    · rw [List.cons_append, nameFront, nameFront, hword.line]

theorem longMarks_line : ∀ m ∈ longMarks, m.length = 2 ∧ '\n' ∉ m := by
  decide

theorem not_longMark {m : List Char} (h : m.length ≠ 2 ∨ '\n' ∈ m) : ¬longMarks.contains m = true := by
  rw [List.contains_iff_mem]
  intro hm
  obtain ⟨hlength, hline⟩ := longMarks_line m hm
  exact h.elim (absurd hlength) hline

theorem markFront_cons (c : Char) (rest : List Char) : markFront (c :: rest) =
    if longMarks.contains ((c :: rest).take 2) then (c :: rest).take 2
    else if shortMarks.contains c then [c] else [] := by
  rw [markFront.eq_def]

/-- An operator of two characters does not reach over the end of a line. -/
theorem markFront_line (text : List Char) : IsLineFront markFront text := by
  rcases text with _ | ⟨c, rest⟩
  · have hnone : markFront [] = [] := by
      rw [markFront.eq_def, if_neg (by decide)]
    refine ⟨hnone ▸ List.nil_prefix, fun more => ?_⟩
    rw [List.nil_append, markFront_cons, if_neg (not_longMark (.inr (by simp))), if_neg (by decide), hnone]
  refine ⟨?_, fun more => ?_⟩
  · rw [markFront_cons]
    split
    · exact List.take_prefix 2 _
    · split
      · exact (List.prefix_cons_inj c).mpr List.nil_prefix
      · exact List.nil_prefix
  · rw [List.cons_append, markFront_cons, markFront_cons]
    rcases rest with _ | ⟨d, rest⟩
    · -- one character is left on the line, too few for a long operator
      rw [if_neg (not_longMark (.inr (by simp))), if_neg (not_longMark (.inl (by simp)))]
    · rfl

/-- What is neither a newline nor a comment is tried as one sort of piece after the other. -/
theorem front?_cons {c : Char} (hline : c ≠ '\n') (hcomment : c ≠ '#') (rest : List Char) :
    front? (c :: rest) =
      if isGap c then some (.gap ((c :: rest).takeWhile isGap))
      else if !(numberFront (c :: rest)).isEmpty then some (.token .number (numberFront (c :: rest)))
      else if !(labelFront (c :: rest)).isEmpty then some (.token .label (labelFront (c :: rest)))
      else if !(nameFront (c :: rest)).isEmpty then some (.token .name (nameFront (c :: rest)))
      else if !(markFront (c :: rest)).isEmpty then some (.token .mark (markFront (c :: rest)))
      else none := by
  rw [front?.eq_def]
  split
  · rename_i heq
    cases heq
  · rename_i heq
    exact absurd (List.cons.inj heq).1 hline
  · rename_i heq
    exact absurd (List.cons.inj heq).1 hcomment
  · rename_i heq
    obtain ⟨rfl, rfl⟩ := List.cons.inj heq
    rfl

/-- No piece is the end of the text. -/
theorem kind_of_front? {text cs : List Char} {kind : TokenKind} (h : front? text = some (.token kind cs)) :
    kind ≠ .finish := by
  cases isFirst_of_front? h
  all_goals decide

/-- A piece takes something from the front of the text. -/
structure IsFront (piece : Piece) (text : List Char) : Prop where
  isPrefix : piece.chars <+: text
  ne_nil : piece.chars ≠ []

theorem IsFirst.isFront {text : List Char} {piece : Piece} (h : IsFirst text piece) : piece.IsFront text := by
  cases h with
  | newline rest => exact ⟨(List.prefix_cons_inj _).mpr List.nil_prefix, List.cons_ne_nil _ _⟩
  | comment rest => exact ⟨(List.prefix_cons_inj _).mpr (List.takeWhile_prefix _), List.cons_ne_nil _ _⟩
  | blanks hc => exact ⟨List.takeWhile_prefix _, by simp [chars, List.takeWhile_cons_of_pos hc]⟩
  | number h => exact ⟨(numberFront_line text).isPrefix, h⟩
  | label h => exact ⟨(labelFront_line text).isPrefix, h⟩
  | name h => exact ⟨(nameFront_line text).isPrefix, h⟩
  | mark h => exact ⟨(markFront_line text).isPrefix, h⟩

/-- **A piece ends with its line**: what is behind the line makes no difference to it. -/
theorem front?_line {text : List Char} {piece : Piece} (h : front? text = some piece) :
    piece.IsFront text ∧ ∀ more, front? (text ++ '\n' :: more) = some piece := by
  refine ⟨(isFirst_of_front? h).isFront, fun more => ?_⟩
  rcases text with _ | ⟨c, rest⟩
  · cases h
  -- a new line is a piece by itself, and a comment ends in front of it
  by_cases hline : c = '\n'
  · subst hline
    cases h
    rfl
  by_cases hcomment : c = '#'
  · subst hcomment
    cases h
    show some (Piece.gap ('#' :: (rest ++ '\n' :: more).takeWhile (· != '\n'))) = _
    rw [(IsLineFront.takeWhile (p := (· != '\n')) (by decide) rest).line]
  -- the front of each other kind of piece is the same with more lines behind it
  have hgap := IsLineFront.takeWhile (p := isGap) (by decide) (c :: rest)
  rw [← h, List.cons_append, front?_cons hline hcomment, front?_cons hline hcomment, ← List.cons_append,
    hgap.line, (numberFront_line _).line, (labelFront_line _).line, (nameFront_line _).line,
    (markFront_line _).line]

end Piece

/-! ## Tokens line by line -/

namespace Token

open Piece TokenReader

/-- The tokens of a text from a place on, and the place behind the text. -/
inductive Scans : ScanPlace → List Char → List Token → ScanPlace → Prop
  | nil (p : ScanPlace) : Scans p [] [] p
  | piece {p q : ScanPlace} {text : List Char} {piece : Piece} {tokens : List Token}
    (hpiece : front? text = some piece) (h : Scans (p.after piece) (text.drop piece.chars.length) tokens q) :
    Scans p text ((p.token? piece).toList ++ tokens) q

/-- The token at the end of a text. -/
def finishAt (p : ScanPlace) : Token :=
  ⟨.finish, "", p.line, p.column⟩

theorem scans_of_scan {limit : Nat} {p : ScanPlace} {text : List Char} {tokens : List Token}
    (h : scan limit p text = .ok tokens) :
    ∃ before q, Scans p text before q ∧ tokens = before ++ [finishAt q] := by
  induction limit generalizing p text tokens with
  | zero =>
    rcases text with _ | ⟨c, rest⟩
    · cases h
      exact ⟨[], p, .nil p, rfl⟩
    · cases h
  | succ limit ih =>
    rcases text with _ | ⟨c, rest⟩
    · cases h
      exact ⟨[], p, .nil p, rfl⟩
    · rw [scan] at h
      split at h
      · cases h
      · rename_i piece hpiece
        obtain ⟨later, hlater, hpure⟩ := ok_of_bind h
        cases hpure
        obtain ⟨before, q, hscans, rfl⟩ := ih hlater
        exact ⟨_, q, .piece hpiece hscans, (List.append_assoc _ _ _).symm⟩

/-- The limit of the tokenizer is large enough. -/
theorem Scans.scan {p q : ScanPlace} {text : List Char} {tokens : List Token}
    (h : Scans p text tokens q) {limit : Nat} (hlimit : text.length ≤ limit) :
    Token.scan limit p text = .ok (tokens ++ [finishAt q]) := by
  induction h generalizing limit with
  | nil p => cases limit <;> rfl
  | @piece p q text piece tokens hpiece h ih =>
    obtain ⟨hfront, -⟩ := front?_line hpiece
    have hpos := List.length_pos_of_ne_nil hfront.ne_nil
    have hle := hfront.isPrefix.length_le
    rcases text with _ | ⟨c, rest⟩
    · cases hpiece
    obtain ⟨limit, rfl⟩ : ∃ l, limit = l + 1 := ⟨limit - 1, by omega⟩
    have hlength : (List.drop piece.chars.length (c :: rest)).length ≤ limit := by
      rw [List.length_drop]
      omega
    have hlater := ih hlength
    rw [Token.scan, hpiece]
    simp only [hlater, bind, Except.bind, pure, Except.pure, List.append_assoc]

/-- What stands on further lines is scanned from where the text ends. -/
theorem Scans.line {p q r : ScanPlace} {text more : List Char} {tokens later : List Token}
    (h : Scans p text tokens q) (hmore : Scans q ('\n' :: more) later r) :
    Scans p (text ++ '\n' :: more) (tokens ++ later) r := by
  induction h with
  | nil p => exact hmore
  | @piece p q text piece tokens hpiece h ih =>
    obtain ⟨hfront, hline⟩ := front?_line hpiece
    have hrest := ih hmore
    rw [← List.drop_append_of_le_length hfront.isPrefix.length_le] at hrest
    rw [List.append_assoc]
    exact .piece (hline more) hrest

/-- The number of open brackets behind a token. -/
def depthAfter (depth : Nat) (t : Token) : Nat :=
  (ScanPlace.after ⟨t.line, t.column, depth⟩ (.token t.kind t.text.toList)).depth

/-- The number of brackets that tokens leave open. -/
def openBrackets (tokens : List Token) : Nat :=
  tokens.foldl depthAfter 0

/-- No bracket is open at the end of a text. -/
def EndsClosed (source : String) : Prop :=
  ∃ tokens, ofText source = .ok tokens ∧ openBrackets tokens = 0

theorem depth_after (p q : ScanPlace) (h : q.depth = p.depth) (piece : Piece) :
    (q.after piece).depth = (p.after piece).depth := by
  obtain ⟨line, column, depth⟩ := p
  obtain ⟨line', column', depth'⟩ := q
  cases h
  cases piece with
  | gap text => rfl
  | token kind text => cases kind <;> rfl

/-- The tokens of a text tell how many brackets are open behind it. -/
theorem Scans.depth_eq {p q : ScanPlace} {text : List Char} {tokens : List Token}
    (h : Scans p text tokens q) : q.depth = tokens.foldl depthAfter p.depth := by
  induction h with
  | nil p => rfl
  | @piece p q text piece tokens hpiece h ih =>
    have hstep : (p.token? piece).toList.foldl depthAfter p.depth = (p.after piece).depth := by
      cases piece with
      | gap text => rfl
      | token kind text =>
        have htoken : ∀ line column, depthAfter p.depth ⟨kind, String.ofList text, line, column⟩ =
            (p.after (.token kind text)).depth := by
          intro line column
          rw [depthAfter, String.toList_ofList]
          exact depth_after p ⟨line, column, p.depth⟩ rfl (.token kind text)
        by_cases hnewline : kind = .newline
        · -- a newline between brackets is dropped
          subst hnewline
          rw [ScanPlace.token?]
          split
          · exact htoken _ _
          · rfl
        · rw [ScanPlace.token?]
          · exact htoken _ _
          · exact hnewline
    rw [List.foldl_append, hstep]
    exact ih

/-- Tokens at other places. -/
abbrev SameWords (tokens others : List Token) : Prop :=
  List.Forall₂ (fun t u => u.kind = t.kind ∧ u.text = t.text) tokens others

/-- Scanned from another place with as many open brackets, a text has the same tokens elsewhere. -/
theorem Scans.moved {p q p' : ScanPlace} {text : List Char} {tokens : List Token}
    (h : Scans p text tokens q) (hdepth : p'.depth = p.depth) :
    ∃ others q', Scans p' text others q' ∧ SameWords tokens others := by
  induction h generalizing p' with
  | nil p => exact ⟨[], p', .nil p', .nil⟩
  | @piece p q text piece tokens hpiece h ih =>
    obtain ⟨others, q', hothers, hwords⟩ := ih (depth_after p p' hdepth piece)
    have hfirst : SameWords (p.token? piece).toList (p'.token? piece).toList := by
      cases piece with
      | gap text => exact .nil
      | token kind text =>
        by_cases hnewline : kind = .newline
        · subst hnewline
          rw [ScanPlace.token?, ScanPlace.token?, hdepth]
          split
          · exact .cons ⟨rfl, rfl⟩ .nil
          · exact .nil
        · rw [ScanPlace.token?, ScanPlace.token?]
          · exact .cons ⟨rfl, rfl⟩ .nil
          · exact hnewline
          · exact hnewline
    exact ⟨_, q', .piece hpiece hothers, List.rel_append hfirst hwords⟩

theorem Scans.kind_ne {p q : ScanPlace} {text : List Char} {tokens : List Token}
    (h : Scans p text tokens q) : ∀ t ∈ tokens, t.kind ≠ .finish := by
  induction h with
  | nil p => exact fun _ ht => absurd ht List.not_mem_nil
  | @piece p q text piece tokens hpiece h ih =>
    refine List.forall_mem_append.mpr ⟨fun t ht => ?_, ih⟩
    rw [Option.mem_toList] at ht
    -- gaps make no token
    cases piece with
    | gap text => cases ht
    | token kind cs =>
      have hkind : t.kind = kind := by
        by_cases hnewline : kind = .newline
        · subst hnewline
          rw [ScanPlace.token?] at ht
          split at ht
          · cases ht
            rfl
          · cases ht
        · rw [ScanPlace.token?] at ht
          · cases ht
            rfl
          · exact hnewline
      rw [hkind]
      exact kind_of_front? hpiece

theorem extends_of_sameWords {ts us more : List Token} {f e : Token} (h : SameWords ts us)
    (hts : ∀ t ∈ ts, t.kind ≠ .finish) (hf : f.kind = .finish) (he : IsEnd e) :
    Extends (e :: more) (ts ++ [f]) (us ++ e :: more) := by
  induction h with
  | nil => exact .close hf he
  | cons hwords _ ih =>
    obtain ⟨ht, hrest⟩ := List.forall_mem_cons.mp hts
    exact .cons ht hwords.1 hwords.2 (ih hrest)

/-- **Tokens line by line**: those of the first text, a newline, and those of the second elsewhere. -/
theorem ofText_lines {first second : String} {before after : List Token} {p q : ScanPlace}
    (hfirst : Scans .start first.toList before p) (hclosed : p.depth = 0)
    (hsecond : Scans .start second.toList after q) : ∃ others r, SameWords after others ∧
      (∀ t ∈ others, t.kind ≠ .finish) ∧
      ofText (first ++ "\n" ++ second) =
        .ok (before ++ ⟨.newline, "\n", p.line, p.column⟩ :: (others ++ [finishAt r])) := by
  have hdepth : (p.after (.token .newline ['\n'])).depth = ScanPlace.start.depth := hclosed
  obtain ⟨others, r, hothers, hwords⟩ := hsecond.moved hdepth
  have hnewline : (p.token? (.token .newline ['\n'])).toList = [⟨.newline, "\n", p.line, p.column⟩] := by
    rw [ScanPlace.token?, if_pos hclosed]
    rfl
  have hlines : Scans p ('\n' :: second.toList)
      ((p.token? (.token .newline ['\n'])).toList ++ others) r := .piece rfl hothers
  rw [hnewline] at hlines
  have htext : (first ++ "\n" ++ second).toList = first.toList ++ '\n' :: second.toList := by simp
  refine ⟨others, r, hwords, hothers.kind_ne, ?_⟩
  rw [ofText, htext, (hfirst.line hlines).scan (Nat.le_refl _)]
  simp

end Token

namespace TokenReader

theorem ReadsAs.finish {f : Token} (hf : f.kind = .finish) : ReadsAs [f] [] := by
  intro limit hlimit
  obtain ⟨limit, rfl⟩ : ∃ l, limit = l + 1 := ⟨limit - 1, by simp at hlimit; omega⟩
  refine ⟨[f], ?_⟩
  have hkept : [f].dropWhile isSeparator = [f] :=
    List.dropWhile_cons_of_neg (by simp [not_isSeparator_of_finish hf])
  rw [run_statements_succ, hkept, tokenAt_zero, if_pos (beq_iff_eq.mpr hf)]

theorem ReadsAs.newline {t : Token} {tokens : List Token} {nodes : List Node} (ht : t.kind = .newline)
    (h : ReadsAs tokens nodes) : ReadsAs (t :: tokens) nodes := by
  intro limit hlimit
  obtain ⟨limit, rfl⟩ : ∃ l, limit = l + 1 := ⟨limit - 1, by simp at hlimit; omega⟩
  have hseparator : isSeparator t = true := by simp [isSeparator, ht]
  rw [← run_statements_dropWhile, List.dropWhile_cons_of_pos hseparator, run_statements_dropWhile]
  exact h _ (by rw [List.length_cons] at hlimit; omega)

end TokenReader

theorem Node.scans_of_read {source : String} {nodes : List Node}
    (h : Node.statementsOfText source = .ok nodes) : ∃ tokens p τ,
      Token.Scans .start source.toList tokens p ∧
      Token.ofText source = .ok (tokens ++ [Token.finishAt p]) ∧
      (TokenReader.statements (tokens ++ [Token.finishAt p]).length).run (tokens ++ [Token.finishAt p]) =
        .ok (nodes, τ) := by
  rw [statementsOfText] at h
  obtain ⟨all, hall, hrun⟩ := ok_of_bind h
  obtain ⟨tokens, p, hscans, rfl⟩ := Token.scans_of_scan hall
  rw [StateT.run'_eq] at hrun
  rcases hcase : (TokenReader.statements (tokens ++ [Token.finishAt p]).length).run
      (tokens ++ [Token.finishAt p]) with e | ⟨found, τ⟩
  · rw [hcase] at hrun
    cases hrun
  · rw [hcase] at hrun
    cases hrun
    exact ⟨tokens, p, τ, hscans, hall, hcase⟩

/-- **Programs are read line by line**: the statements of a text with no bracket open at its end, and
those of what stands on the next lines. -/
theorem Node.statementsOfText_lines {first second : String} {a b : List Node}
    (ha : Node.statementsOfText first = .ok a) (hb : Node.statementsOfText second = .ok b)
    (hclosed : Token.EndsClosed first) :
    Node.statementsOfText (first ++ "\n" ++ second) = .ok (a ++ b) := by
  obtain ⟨before, p, _, hfirst, hall, hreadFirst⟩ := scans_of_read ha
  obtain ⟨after, q, _, hsecond, -, hreadSecond⟩ := scans_of_read hb
  have hdepth : p.depth = 0 := by
    obtain ⟨tokens, htokens, hopen⟩ := hclosed
    obtain rfl := Except.ok.inj (hall.symm.trans htokens)
    rw [Token.openBrackets, List.foldl_append] at hopen
    rw [hfirst.depth_eq]
    exact hopen
  obtain ⟨others, r, hwords, hothers, htokens⟩ := Token.ofText_lines hfirst hdepth hsecond
  -- the second text is read behind the newline as it is read alone
  have hrest : TokenReader.ReadsAs (others ++ [Token.finishAt r]) b := by
    have hextends : TokenReader.Extends [Token.finishAt r] (after ++ [Token.finishAt q])
        (others ++ [Token.finishAt r]) :=
      Token.extends_of_sameWords hwords hsecond.kind_ne rfl (.inl rfl)
    simpa using TokenReader.ReadsAs.of_extends (Nat.le_refl _) hreadSecond hextends (.finish rfl)
  -- the first is read up to the newline
  have hsame : Token.SameWords before before := List.forall₂_same.mpr fun _ _ => ⟨rfl, rfl⟩
  have hextends : TokenReader.Extends (⟨.newline, "\n", p.line, p.column⟩ :: (others ++ [Token.finishAt r]))
      (before ++ [Token.finishAt p])
      (before ++ ⟨.newline, "\n", p.line, p.column⟩ :: (others ++ [Token.finishAt r])) :=
    Token.extends_of_sameWords hsame hfirst.kind_ne rfl (.inr rfl)
  obtain ⟨τ, hrun⟩ := TokenReader.ReadsAs.of_extends (Nat.le_refl _) hreadFirst hextends
    (.newline rfl hrest) _ (Nat.le_refl _)
  rw [statementsOfText, htokens]
  show (TokenReader.statements _).run' _ = _
  rw [StateT.run'_eq, hrun]
  rfl

/-- A result with its place counted from further on. -/
def StatementResult.movedBy {R : Type} (count : Nat) (r : StatementResult R) : StatementResult R :=
  { r with index := count + r.index }

namespace Session

variable {R S : Type} [Scalar R] [RandomSource S R]

theorem runStatements_append (index : Nat) (a b : List Node) :
    (runStatements index (a ++ b) : Evaluation R S _) = (do
      let before ← runStatements index a
      return before ++ (← runStatements (index + a.length) b)) := by
  induction a generalizing index with
  | nil => simp [runStatements]
  | cons node a ih =>
    simp only [List.cons_append, runStatements, ih, bind_assoc, pure_bind, List.length_cons,
      Nat.add_comm a.length 1, ← Nat.add_assoc]

theorem runStatements_movedBy (count index : Nat) (nodes : List Node) :
    (runStatements (count + index) nodes : Evaluation R S _) =
      List.map (.movedBy count) <$> runStatements index nodes := by
  induction nodes generalizing index with
  | nil => simp [runStatements]
  | cons node rest ih =>
    simp only [runStatements, map_eq_pure_bind, bind_assoc, pure_bind, Nat.add_assoc, ih]
    rfl

/-- A run gives one result for each statement. -/
theorem runStatements_congr {α : Type} {index : Nat} {nodes : List Node}
    {f g : List (StatementResult R) → Evaluation R S α}
    (h : ∀ results, results.length = nodes.length → f results = g results) :
    runStatements index nodes >>= f = runStatements index nodes >>= g := by
  induction nodes generalizing index f g with
  | nil =>
    simp only [runStatements, pure_bind]
    exact h [] rfl
  | cons node rest ih =>
    simp only [runStatements, bind_assoc, pure_bind]
    refine congrArg _ (funext fun outcome => ?_)
    exact ih fun results hlength => h _ (congrArg Nat.succ hlength)

/-- **Programs run line by line.** -/
theorem run_lines {first second : String} {a b : List Node}
    (ha : Node.statementsOfText first = .ok a) (hb : Node.statementsOfText second = .ok b)
    (hclosed : Token.EndsClosed first) :
    (run (first ++ "\n" ++ second) : Evaluation R S _) = (do
      let before ← run first
      let after ← run second
      return before ++ after.map (.movedBy before.length)) := by
  have hreading : ∀ {source : String} {nodes : List Node}, Node.statementsOfText source = .ok nodes →
      (run source : Evaluation R S _) = runStatements 0 nodes := by
    intro source nodes hnodes
    rw [run, hnodes]
    rfl
  rw [hreading (Node.statementsOfText_lines ha hb hclosed), hreading ha, hreading hb,
    runStatements_append]
  refine runStatements_congr fun before hlength => ?_
  have hmoved := runStatements_movedBy (R := R) (S := S) a.length 0 b
  rw [Nat.zero_add, ← Nat.add_zero a.length, hmoved, hlength, map_eq_pure_bind, bind_assoc]
  simp only [pure_bind]

/-- **Line by line.** If two texts are programs and no bracket is open at the end of the first, then the
two with a newline between them are a program. Its statements are those of the first and then those of
the second; and from every session it runs like the first and then, in the session that is left, the
second, whose results are counted on from those of the first. -/
theorem reads_and_runs_line_by_line {first second : String} {a b : List Node}
    (ha : Node.statementsOfText first = .ok a) (hb : Node.statementsOfText second = .ok b)
    (hclosed : Token.EndsClosed first) :
    Node.statementsOfText (first ++ "\n" ++ second) = .ok (a ++ b) ∧
      ∀ (R S : Type) [Scalar R] [RandomSource S R],
        (run (first ++ "\n" ++ second) : Evaluation R S (List (StatementResult R))) = (do
          let before ← run first
          let after ← run second
          return before ++ after.map (.movedBy before.length)) :=
  ⟨Node.statementsOfText_lines ha hb hclosed, fun _ _ => run_lines ha hb hclosed⟩

/-- A definition over two lines and a comment, and a line that uses it. -/
theorem definition_and_use : ∃ a b,
    Node.statementsOfText "f(x) = \x7bx: 1,\n 2: 3\x7d # a set\ny = f(4)" = .ok a ∧
      Node.statementsOfText "y to 9 km" = .ok b ∧ a.length = 2 ∧ b.length = 1 ∧
      Node.statementsOfText "f(x) = \x7bx: 1,\n 2: 3\x7d # a set\ny = f(4)\ny to 9 km" = .ok (a ++ b) := by
  have hfirst : (Node.statementsOfText "f(x) = \x7bx: 1,\n 2: 3\x7d # a set\ny = f(4)").toOption.map
      List.length = some 2 := by decide +kernel
  have hsecond : (Node.statementsOfText "y to 9 km").toOption.map List.length = some 1 := by
    decide +kernel
  have hclosed : (Token.ofText "f(x) = \x7bx: 1,\n 2: 3\x7d # a set\ny = f(4)").toOption.map
      Token.openBrackets = some 0 := by decide +kernel
  have hresult : ∀ {ε α β : Type} {e : Except ε α} {f : α → β} {b : β},
      e.toOption.map f = some b → ∃ a, e = .ok a ∧ f a = b := by
    rintro ε α β (e | a) f b h
    · cases h
    · exact ⟨a, rfl, Option.some.inj h⟩
  obtain ⟨a, ha, hlengthFirst⟩ := hresult hfirst
  obtain ⟨b, hb, hlengthSecond⟩ := hresult hsecond
  exact ⟨a, b, ha, hb, hlengthFirst, hlengthSecond,
    (reads_and_runs_line_by_line ha hb (hresult hclosed)).1⟩

end Session

end Ballpark
