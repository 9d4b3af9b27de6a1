import Ballpark.Proofs.Outcome
import Ballpark.Proofs.WrittenUnit

/-!
# Tokens of programs

What the tokenizer of programs hands on as a name, a label or a number is one (`Token.isLexed_of_read`):
numbers are those of units, and a name is a letter or a sign with more of them behind it, letters of all
scripts among them.
-/

namespace Ballpark

/-- A name, a label and a number are what their kind says. -/
def Token.IsLexed (t : Token) : Prop :=
  match t.kind with
  | .name => Piece.IsWord t.text.toList
  | .label => Piece.IsWord t.text.toList ∧ t.text.toList.head? = some '\''
  | .number => UnitToken.IsNumber t.text.toList
  | _ => True

namespace Piece

open UnitToken

theorem allDigits_takeWhile (text : List Char) : AllDigits (text.takeWhile Text.isDigit) :=
  fun _ hc => List.mem_takeWhile_imp hc

theorem isPower_powerFront {text : List Char} (h : Decimal.powerFront text ≠ []) :
    IsPower (Decimal.powerFront text) := by
  rcases text with _ | ⟨mark, text⟩
  · exact absurd rfl h
  rcases hmark : Decimal.isExponentMark mark with _ | _
  · unfold Decimal.powerFront at h
    simp only [hmark, Bool.false_eq_true, if_false, ne_eq, not_true] at h
  obtain ⟨sign, body, rfl, hsign⟩ := exists_sign text
  rw [powerFront_signed hmark hsign] at h ⊢
  rcases hdigits : body.takeWhile Text.isDigit with _ | ⟨d, ds⟩
  · rw [hdigits] at h
    exact absurd rfl h
  · refine ⟨hmark, ?_, hdigits ▸ allDigits_takeWhile body, List.cons_ne_nil _ _⟩
    rcases hsign with rfl | rfl | ⟨rfl, -, -⟩
    · exact .inr (.inl rfl)
    · exact .inr (.inr rfl)
    · exact .inl rfl

theorem isMantissa_mantissaFront {text : List Char} (h : mantissaFront text ≠ []) :
    IsMantissa (mantissaFront text) := by
  have hwhole := allDigits_takeWhile text
  rw [mantissaFront] at h ⊢
  generalize text.takeWhile Text.isDigit = whole at *
  split
  · rename_i rest hrest
    have hplaces := allDigits_takeWhile rest
    simp only [hrest] at h
    generalize rest.takeWhile Text.isDigit = places at *
    -- at a point one of the two runs of digits may be empty, but not both
    by_cases hsome : whole = []
    · subst hsome
      by_cases hmore : places = []
      · simp [hmore] at h
      · have hpoint : IsMantissa ([] ++ '.' :: places) := .point hwhole hplaces (.inr hmore)
        simpa [hmore] using hpoint
    · simp only [List.isEmpty_iff, hsome, if_false]
      -- a point in front of a second one belongs to a range
      split
      · exact .whole hwhole hsome
      · exact .point hwhole hplaces (.inl hsome)
  · rename_i hrest
    refine .whole hwhole fun hnone => h ?_
    split
    · exact (hrest _ ‹_›).elim
    · exact hnone

theorem isNumber_numberFront {text : List Char} (h : numberFront text ≠ []) :
    IsNumber (numberFront text) := by
  rw [numberFront] at h ⊢
  rcases hmantissa : mantissaFront text with _ | ⟨c, mantissa⟩
  · rw [hmantissa] at h
    exact absurd rfl h
  · have his : IsMantissa (c :: mantissa) := by
      rw [← hmantissa]
      exact isMantissa_mantissaFront (hmantissa ▸ List.cons_ne_nil _ _)
    by_cases hpower : Decimal.powerFront (text.drop (c :: mantissa).length) = []
    · simp only [hpower, List.append_nil]
      exact .plain his
    · exact .scaled his (isPower_powerFront hpower)

theorem isWord_labelFront {text : List Char} (h : labelFront text ≠ []) :
    IsWord (labelFront text) ∧ (labelFront text).head? = some '\'' := by
  rw [labelFront.eq_def] at h ⊢
  split at h
  · split at h
    · rename_i c rest hc
      simp only [hc, if_true]
      exact ⟨.label hc fun _ hd => List.mem_takeWhile_imp hd, rfl⟩
    · exact absurd rfl h
  · exact absurd rfl h

theorem isWord_nameFront {text : List Char} (h : nameFront text ≠ []) : IsWord (nameFront text) := by
  rw [nameFront.eq_def] at h ⊢
  split at h
  · split at h
    · rename_i c rest hc
      simp only [hc, if_true]
      exact .name hc fun _ hd => List.mem_takeWhile_imp hd
    · exact absurd rfl h
  · exact absurd rfl h

/-- What the first piece of a text may be, and what is known of the text then. -/
inductive IsFirst : List Char → Piece → Prop
  | newline (rest : List Char) : IsFirst ('\n' :: rest) (.token .newline ['\n'])
  | comment (rest : List Char) : IsFirst ('#' :: rest) (.gap ('#' :: rest.takeWhile (· != '\n')))
  | blanks {c : Char} {rest : List Char} (hc : isGap c = true) :
    IsFirst (c :: rest) (.gap ((c :: rest).takeWhile isGap))
  | number {text : List Char} (h : numberFront text ≠ []) : IsFirst text (.token .number (numberFront text))
  | label {text : List Char} (h : labelFront text ≠ []) : IsFirst text (.token .label (labelFront text))
  | name {text : List Char} (h : nameFront text ≠ []) : IsFirst text (.token .name (nameFront text))
  | mark {text : List Char} (h : markFront text ≠ []) : IsFirst text (.token .mark (markFront text))

theorem isFirst_of_front? {text : List Char} {piece : Piece} (h : front? text = some piece) :
    IsFirst text piece := by
  have hsome : ∀ {front : List Char}, (!front.isEmpty) = true → front ≠ [] := by
    rintro front hfront rfl
    cases hfront
  rw [front?.eq_def] at h
  split at h
  · cases h
  · cases h
    exact .newline _
  · cases h
    exact .comment _
  -- the sorts are tried in their order, and each is known by its own front
  split at h
  · cases h
    exact .blanks ‹_›
  split at h
  · cases h
    exact .number (hsome ‹_›)
  split at h
  · cases h
    exact .label (hsome ‹_›)
  split at h
  · cases h
    exact .name (hsome ‹_›)
  split at h
  · cases h
    exact .mark (hsome ‹_›)
  · cases h

/-- What the first piece is, it is rightly. -/
theorem isLexed_of_front {text : List Char} {kind : TokenKind} {front : List Char}
    (h : front? text = some (.token kind front)) (line column : Nat) :
    Token.IsLexed ⟨kind, String.ofList front, line, column⟩ := by
  rw [Token.IsLexed, String.toList_ofList]
  cases isFirst_of_front? h with
  | newline | mark => trivial
  | number hsome => exact isNumber_numberFront hsome
  | label hsome => exact isWord_labelFront hsome
  | name hsome => exact isWord_nameFront hsome

/-- The token that a piece is, is one that its kind says. -/
theorem isLexed_of_token {text : List Char} {piece : Piece} (hpiece : front? text = some piece)
    {p : ScanPlace} {t : Token} (ht : p.token? piece = some t) : t.IsLexed := by
  rw [ScanPlace.token?.eq_def] at ht
  split at ht
  · cases ht
  · split at ht
    · cases ht
      trivial
    · cases ht
  · cases ht
    exact isLexed_of_front hpiece _ _

end Piece

namespace Token

theorem isLexed_of_scan {limit : Nat} {p : ScanPlace} {text : List Char} {tokens : List Token}
    (h : scan limit p text = .ok tokens) : ∀ t ∈ tokens, t.IsLexed := by
  induction limit generalizing p text tokens with
  | zero =>
    rcases text with _ | ⟨c, rest⟩
    · cases h
      exact fun t ht => List.mem_singleton.mp ht ▸ trivial
    · cases h
  | succ limit ih =>
    rcases text with _ | ⟨c, rest⟩
    · cases h
      exact fun t ht => List.mem_singleton.mp ht ▸ trivial
    · rw [scan] at h
      split at h
      · cases h
      · rename_i piece hpiece
        obtain ⟨later, hlater, hpure⟩ := ok_of_bind h
        cases hpure
        intro t ht
        rcases List.mem_append.mp ht with ht | ht
        · exact Piece.isLexed_of_token hpiece (Option.mem_toList.mp ht)
        · exact ih hlater t ht

/-- **The tokens of a program are what their kinds say.** -/
theorem isLexed_of_read {source : String} {tokens : List Token} (h : ofText source = .ok tokens) :
    ∀ t ∈ tokens, t.IsLexed :=
  isLexed_of_scan h

end Token

end Ballpark
