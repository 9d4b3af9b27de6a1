import Ballpark.Proofs.ProgramLexing
import Ballpark.Proofs.UnitText

/-!
# The characters of units

The tokenizer of units leaves nothing out: a text that has tokens is made of their characters, with blanks
between them (`UnitToken.isTokenChar_of_scan`). One character that no token can have is therefore enough
for a text to be refused (`CompoundUnit.ofText_foreign`).
-/

namespace Ballpark

namespace UnitToken

/-- Can the character stand in a token? -/
def isTokenChar (c : Char) : Bool :=
  continuesName c || Text.isDigit c ||
    ['.', '+', '-', '\'', '*', '/', '^', '(', ')', '·'].contains c

/-- The front of a text whose characters can stand in tokens. -/
structure IsFront (front text : List Char) : Prop where
  isPrefix : front <+: text
  chars : ∀ c ∈ front, isTokenChar c = true

namespace IsFront

theorem nil (text : List Char) : IsFront [] text :=
  ⟨List.nil_prefix, fun _ hc => absurd hc List.not_mem_nil⟩

theorem append {front next text : List Char} (h : IsFront front text)
    (hnext : IsFront next (text.drop front.length)) : IsFront (front ++ next) text where
  isPrefix := by
    obtain ⟨back, rfl⟩ := h.isPrefix
    rw [List.drop_left] at hnext
    exact (List.prefix_append_right_inj front).mpr hnext.isPrefix
  chars := List.forall_mem_append.mpr ⟨h.chars, hnext.chars⟩

theorem cons {c : Char} {front text : List Char} (hc : isTokenChar c = true) (h : IsFront front text) :
    IsFront (c :: front) (c :: text) :=
  ⟨(List.prefix_cons_inj c).mpr h.isPrefix, List.forall_mem_cons.mpr ⟨hc, h.chars⟩⟩

theorem takeWhile {p : Char → Bool} (hp : ∀ c, p c = true → isTokenChar c = true) (text : List Char) :
    IsFront (text.takeWhile p) text :=
  ⟨List.takeWhile_prefix p, fun c hc => hp c (List.mem_takeWhile_imp hc)⟩

end IsFront

theorem isTokenChar_of_isDigit (c : Char) (h : Text.isDigit c = true) : isTokenChar c = true := by
  rw [isTokenChar, h, Bool.or_true, Bool.true_or]

theorem isTokenChar_of_continuesName (c : Char) (h : continuesName c = true) : isTokenChar c = true := by
  rw [isTokenChar, h, Bool.true_or, Bool.true_or]

theorem isFront_powerFront (text : List Char) : IsFront (Decimal.powerFront text) text := by
  rcases text with _ | ⟨mark, text⟩
  · exact .nil _
  rcases hmark : Decimal.isExponentMark mark with _ | _
  · unfold Decimal.powerFront
    simp only [hmark, Bool.false_eq_true, if_false]
    exact .nil _
  obtain ⟨sign, body, rfl, hsign⟩ := exists_sign text
  rw [powerFront_signed hmark hsign]
  have hdigits := IsFront.takeWhile isTokenChar_of_isDigit body
  have hmarkChar : isTokenChar mark = true := by
    rw [Decimal.isExponentMark, Bool.or_eq_true, beq_iff_eq, beq_iff_eq] at hmark
    rcases hmark with rfl | rfl
    · decide
    · decide
  rcases hbody : body.takeWhile Text.isDigit with _ | ⟨d, ds⟩
  · exact .nil _
  · rw [hbody] at hdigits
    refine .cons hmarkChar ?_
    rcases hsign with rfl | rfl | ⟨rfl, -, -⟩
    · exact .cons (by decide) hdigits
    · exact .cons (by decide) hdigits
    · exact hdigits

theorem isFront_numberFront (text : List Char) : IsFront (numberFront text) text := by
  have hraised : ∀ mantissa, IsFront mantissa text → IsFront (if mantissa.isEmpty then [] else
      mantissa ++ Decimal.powerFront (text.drop mantissa.length)) text := by
    intro mantissa hmantissa
    split
    · exact .nil _
    · exact hmantissa.append (isFront_powerFront _)
  have hwhole := IsFront.takeWhile isTokenChar_of_isDigit text
  unfold numberFront
  refine hraised _ ?_
  split
  · rename_i hpoint
    obtain ⟨rest, hrest⟩ := List.head?_eq_some_iff.mp (beq_iff_eq.mp (Bool.and_eq_true_iff.mp hpoint).1)
    refine hwhole.append ?_
    rw [hrest]
    exact .cons (by decide) (.takeWhile isTokenChar_of_isDigit rest)
  · exact hwhole

theorem isFront_nameFront (text : List Char) : IsFront (nameFront text) text := by
  have hname : ∀ rest : List Char, IsFront (rest.takeWhile continuesName) rest :=
    .takeWhile isTokenChar_of_continuesName
  unfold nameFront
  split
  rename_i tick rest hsplit
  split
  · split
    · split at hsplit
      · cases hsplit
        exact .cons (by decide) (hname _)
      · cases hsplit
        exact hname _
    · exact .nil _
  · exact .nil _

theorem isFront_markFront (text : List Char) : IsFront (markFront text) text := by
  rw [markFront.eq_def]
  split
  · exact .cons (by decide) (.cons (by decide) (.nil _))
  · split
    · rename_i hc
      have hmarks : ∀ m ∈ ['*', '/', '^', '(', ')', '·', '-'], isTokenChar m = true :=
        List.all_eq_true.mp (by decide)
      exact .cons (hmarks _ (List.contains_iff_mem.mp hc)) (.nil _)
    · exact .nil _
  · exact .nil _

/-- A token takes characters of tokens only. -/
theorem isTokenChar_of_take {text : List Char} {c : Char} (hc : c ∈ text.take (frontLength text)) :
    isTokenChar c = true := by
  rw [frontLength] at hc
  split at hc
  · split at hc
    · have hfront := isFront_markFront text
      rw [← List.prefix_iff_eq_take.mp hfront.isPrefix] at hc
      exact hfront.chars c hc
    · have hfront := isFront_nameFront text
      rw [← List.prefix_iff_eq_take.mp hfront.isPrefix] at hc
      exact hfront.chars c hc
  · have hfront := isFront_numberFront text
    rw [← List.prefix_iff_eq_take.mp hfront.isPrefix] at hc
    exact hfront.chars c hc

/-- A token is not empty. -/
theorem frontLength_pos {text : List Char} {token : UnitToken} (h : front? text = some token) :
    0 < frontLength text := by
  rw [front?.eq_def] at h
  rw [frontLength]
  rcases hnumber : numberFront text with _ | ⟨c, number⟩
  · rcases hname : nameFront text with _ | ⟨c, name⟩
    · rcases hmark : markFront text with _ | ⟨c, mark⟩
      · simp only [hnumber, hname, hmark] at h
        cases h
      · exact Nat.succ_pos _
    · exact Nat.succ_pos _
  · exact Nat.succ_pos _

/-- **A text that has tokens is made of blanks and characters of tokens.** -/
theorem isTokenChar_of_scan {R : Type} {unit : String} {limit column : Nat} {text : List Char}
    {tokens : List UnitToken} (hlimit : text.length ≤ limit)
    (h : scan (R := R) unit limit column text = .ok tokens) :
    ∀ c ∈ text, Text.isBlank c = true ∨ isTokenChar c = true := by
  induction limit generalizing column text tokens with
  | zero =>
    rw [List.length_eq_zero_iff.mp (Nat.le_zero.mp hlimit)]
    exact fun _ hc => absurd hc List.not_mem_nil
  | succ limit ih =>
    rcases text with _ | ⟨first, rest⟩
    · exact fun _ hc => absurd hc List.not_mem_nil
    rw [scan] at h
    generalize first :: rest = text at h hlimit
    obtain ⟨⟨token, length⟩, hnext, h⟩ := ok_of_bind h
    obtain ⟨later, hlater, -⟩ := ok_of_bind h
    rw [next] at hnext
    split at hnext
    · cases hnext
    rename_i hfront
    cases hnext
    -- blanks, the token, and the rest
    intro c hc
    generalize hblanks : (text.takeWhile Text.isBlank).length = blanks at hfront hlater
    have hpos := frontLength_pos hfront
    rw [← List.take_append_drop (blanks + frontLength (text.drop blanks)) text, List.take_add] at hc
    rcases List.mem_append.mp hc with hc | hc
    · rcases List.mem_append.mp hc with hc | hc
      · rw [← hblanks, ← List.prefix_iff_eq_take.mp (List.takeWhile_prefix _)] at hc
        exact .inl (List.mem_takeWhile_imp hc)
      · exact .inr (isTokenChar_of_take hc)
    · refine ih ?_ hlater c hc
      rw [List.length_drop]
      omega

/-! ### Names among the tokens -/

theorem isName_nameFront {text : List Char} (h : nameFront text ≠ []) : IsName (nameFront text) := by
  have htail : ∀ more : List Char, ∀ d ∈ more.takeWhile continuesName, continuesName d = true :=
    fun _ _ hd => List.mem_takeWhile_imp hd
  rcases text with _ | ⟨c, text⟩
  · exact absurd rfl h
  by_cases htick : c = '\''
  · subst htick
    rcases text with _ | ⟨c, text⟩
    · exact absurd rfl h
    rcases hc : startsName c with _ | _
    · simp [nameFront, hc] at h
    · have hgoes : continuesName c = true := by rw [continuesName, hc, Bool.true_or]
      rw [nameFront_label hc, List.takeWhile_cons_of_pos hgoes]
      exact .label hc (htail text)
  · rcases hc : startsName c with _ | _
    · have hplain : ∀ more, c :: text = '\'' :: more → False := fun _ heq => htick (List.cons.inj heq).1
      unfold nameFront at h
      simp only [hc, Bool.false_eq_true, if_false, ne_eq, not_true_eq_false] at h
    · have hgoes : continuesName c = true := by rw [continuesName, hc, Bool.true_or]
      rw [nameFront_plain hc, List.takeWhile_cons_of_pos hgoes]
      exact .plain hc (htail text)

theorem isName_of_front? {text : List Char} {name : String} (h : front? text = some (.name name)) :
    IsName name.toList := by
  rw [front?.eq_def] at h
  split at h
  · cases h
  split at h
  · rename_i hname
    simp only at h
    split at h
    · cases h
    · cases h
      rw [String.toList_ofList]
      exact isName_nameFront (by rw [hname]; exact List.cons_ne_nil _ _)
  split at h
  · cases h
  · cases h

/-- **A name among the tokens has the letters of a name.** -/
theorem isName_of_scan {R : Type} {unit : String} {limit column : Nat} {text : List Char}
    {tokens : List UnitToken} (h : scan (R := R) unit limit column text = .ok tokens) {name : String}
    (hname : .name name ∈ tokens) : IsName name.toList := by
  induction limit generalizing column text tokens with
  | zero =>
    have hnone : [] = tokens := by
      rcases text with _ | ⟨first, rest⟩
      · exact Except.ok.inj h
      · exact Except.ok.inj h
    rw [← hnone] at hname
    cases hname
  | succ limit ih =>
    rcases text with _ | ⟨first, rest⟩
    · rw [scan] at h
      cases h
      cases hname
    rw [scan] at h
    obtain ⟨⟨token, length⟩, hnext, h⟩ := ok_of_bind h
    obtain ⟨later, hlater, h⟩ := ok_of_bind h
    cases h
    -- it is the first token, or one behind it
    rcases List.mem_cons.mp hname with rfl | hname
    · rw [next] at hnext
      split at hnext
      · cases hnext
      · rename_i hfront
        cases hnext
        exact isName_of_front? hfront
    · exact ih hlater hname

end UnitToken

namespace Text

/-- Only blanks are trimmed. -/
theorem mem_trimEnd {c : Char} {text : List Char} (hc : c ∈ text) (hblank : isBlank c = false) :
    c ∈ trimEnd text := by
  rw [trimEnd, List.mem_reverse]
  rw [← List.mem_reverse, ← List.takeWhile_append_dropWhile (p := isBlank) (l := text.reverse)] at hc
  refine (List.mem_append.mp hc).resolve_left fun htaken => ?_
  rw [List.mem_takeWhile_imp htaken] at hblank
  cases hblank

theorem mem_trim {c : Char} {text : List Char} (hc : c ∈ text) (hblank : isBlank c = false) :
    c ∈ trim text := by
  refine mem_trimEnd ?_ hblank
  rw [← List.takeWhile_append_dropWhile (p := isBlank) (l := text)] at hc
  refine (List.mem_append.mp hc).resolve_left fun htaken => ?_
  rw [List.mem_takeWhile_imp htaken] at hblank
  cases hblank

end Text

/-- **A text with a character that is in no token is refused by its syntax.** -/
theorem CompoundUnit.ofText_foreign {R : Type} [Scalar R] {text : String} {c : Char}
    (hc : c ∈ text.toList) (hblank : Text.isBlank c = false) (hforeign : UnitToken.isTokenChar c = false) :
    ∃ f : Fault R, f.kind = .parse ∧ CompoundUnit.ofText text = .error f := by
  have htrimmed := Text.mem_trim hc hblank
  have hsome : (Text.trimText text).isEmpty = false := by
    rw [String.isEmpty_eq_false_iff, Text.trimText]
    intro hempty
    rw [← String.toList_inj, String.toList_ofList] at hempty
    rw [hempty] at htrimmed
    exact absurd htrimmed List.not_mem_nil
  have hends := UnitToken.ofText_ends (R := R) (Text.trimText text)
  rcases htokens : UnitToken.ofText (R := R) (Text.trimText text) with f | tokens
  · obtain ⟨unit, issue, rfl⟩ := hends.of_error htokens
    refine ⟨.unitText unit issue, rfl, ?_⟩
    rw [CompoundUnit.ofText, hsome, htokens]
    rfl
  · have hchars := UnitToken.isTokenChar_of_scan le_rfl htokens c ?_
    · rw [hblank, hforeign] at hchars
      simp at hchars
    · rw [Text.trimText, String.toList_ofList]
      exact Text.mem_trimEnd htrimmed hblank

end Ballpark
