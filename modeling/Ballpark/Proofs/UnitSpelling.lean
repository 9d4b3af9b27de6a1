import Ballpark.Unit.Reading
import Mathlib.Data.List.TakeWhile

/-!
# Spelling unit texts

The tokens of a unit are spelled one after another, with any blanks between them. A number is digits
with at most one point, and a power of ten if there is one; a name is letters, signs and digits behind a
letter or a sign, and a label's has a tick in front; a slash may be spelled `per`. Two tokens must not
run together: behind a name no character may stand that would go on with it, and behind a number no
digit, no point and no power of ten. What is spelled in this way is scanned as what it spells
(`UnitToken.ofText_spelled`).
-/

namespace Ballpark

namespace UnitToken

/-! ## Words -/

/-- Digits of any script. -/
def AllDigits (word : List Char) : Prop :=
  ∀ c ∈ word, Text.isDigit c = true

/-- The front of a text is over where no character goes on with it. -/
def Stops (goesOn : Char → Bool) (rest : List Char) : Prop :=
  ∀ c ∈ rest.head?, goesOn c = false

theorem stops_cons {goesOn : Char → Bool} {c : Char} {rest : List Char} (h : goesOn c = false) :
    Stops goesOn (c :: rest) :=
  fun _ hc => Option.some.inj hc ▸ h

/-- A power of ten: its mark, a sign if there is one, and digits. -/
inductive IsPower : List Char → Prop
  | mk {mark : Char} {sign digits : List Char} (hmark : Decimal.isExponentMark mark = true)
      (hsign : sign = [] ∨ sign = ['-'] ∨ sign = ['+']) (hdigits : AllDigits digits)
      (hsome : digits ≠ []) : IsPower (mark :: (sign ++ digits))

/-- Digits, with at most one point before, among or behind them. -/
inductive IsMantissa : List Char → Prop
  | whole {digits : List Char} (h : AllDigits digits) (hsome : digits ≠ []) : IsMantissa digits
  | point {whole places : List Char} (hwhole : AllDigits whole) (hplaces : AllDigits places)
      (hsome : whole ≠ [] ∨ places ≠ []) : IsMantissa (whole ++ '.' :: places)

/-- A number without a sign. -/
inductive IsNumber : List Char → Prop
  | plain {mantissa : List Char} (h : IsMantissa mantissa) : IsNumber mantissa
  | scaled {mantissa power : List Char} (h : IsMantissa mantissa) (hpower : IsPower power) :
      IsNumber (mantissa ++ power)

/-- A name, with a tick in front of it if it is a label's. -/
inductive IsName : List Char → Prop
  | plain {c : Char} {rest : List Char} (hc : startsName c = true)
      (hrest : ∀ d ∈ rest, continuesName d = true) : IsName (c :: rest)
  | label {c : Char} {rest : List Char} (hc : startsName c = true)
      (hrest : ∀ d ∈ rest, continuesName d = true) : IsName ('\'' :: c :: rest)

/-- Nothing goes on with a number: no digit, no point and no power of ten. -/
structure EndsNumber (rest : List Char) : Prop where
  digit : Stops Text.isDigit rest
  point : rest.head? ≠ some '.'
  power : ∀ p, IsPower p → ¬p <+: rest

theorem endsNumber_nil : EndsNumber [] where
  digit _ hc := absurd hc (Option.not_mem_none _)
  point hc := nomatch hc
  power _ hp hprefix := by
    obtain ⟨⟩ := hp
    exact absurd (List.prefix_nil.mp hprefix) (List.cons_ne_nil _ _)

/-- A character that cannot stand in a number ends one. -/
theorem endsNumber_cons {c : Char} {rest : List Char} (hdigit : Text.isDigit c = false)
    (hpoint : c ≠ '.') (hmark : Decimal.isExponentMark c = false) : EndsNumber (c :: rest) where
  digit := stops_cons hdigit
  point hc := hpoint (Option.some.inj hc)
  power _ hp hprefix := by
    obtain ⟨h, -, -, -⟩ := hp
    rw [(List.cons_prefix_cons.mp hprefix).1, hmark] at h
    cases h

/-- How a token is spelled in front of the rest of a text. -/
inductive Spells : UnitToken → List Char → List Char → Prop
  | number {text : String} {rest : List Char} (h : IsNumber text.toList) (hrest : EndsNumber rest) :
      Spells (.number text) text.toList rest
  | name {text : String} {rest : List Char} (h : IsName text.toList) (hper : text ≠ "per")
      (hrest : Stops continuesName rest) : Spells (.name text) text.toList rest
  | per {rest : List Char} (hrest : Stops continuesName rest) :
      Spells (.mark "/") ['p', 'e', 'r'] rest
  | mark {c : Char} {rest : List Char} (h : c ∈ ['/', '^', '(', ')', '·', '-']) :
      Spells (.mark (String.ofList [c])) [c] rest
  | times {rest : List Char} (hrest : rest.head? ≠ some '*') : Spells (.mark "*") ['*'] rest
  | stars {rest : List Char} : Spells (.mark "**") ['*', '*'] rest

/-- A text of tokens with blanks between them. -/
inductive Spelled : List UnitToken → List Char → Prop
  | nil : Spelled [] []
  | cons {token : UnitToken} {tokens : List UnitToken} {blanks word rest : List Char}
      (hblanks : ∀ c ∈ blanks, Text.isBlank c = true) (hword : Spells token word rest)
      (hrest : Spelled tokens rest) : Spelled (token :: tokens) (blanks ++ (word ++ rest))

/-! ## Putting words together -/

/-- What may follow any word: the end, a blank, the sign of a power or the end of a parenthesis. -/
def EndsWord (rest : List Char) : Prop :=
  ∀ c ∈ rest.head?, c ∈ [' ', '^', ')']

theorem endsWord_nil : EndsWord [] :=
  fun _ hc => nomatch hc

theorem endsWord_cons {c : Char} {rest : List Char} (hc : c ∈ [' ', '^', ')']) : EndsWord (c :: rest) :=
  fun _ hd => Option.some.inj hd ▸ hc

theorem EndsWord.endsNumber {rest : List Char} (h : EndsWord rest) : EndsNumber rest := by
  rcases rest with _ | ⟨c, rest⟩
  · exact endsNumber_nil
  · have hapart : [' ', '^', ')'].all (fun d =>
        !Text.isDigit d && d != '.' && !Decimal.isExponentMark d) = true := by
      decide
    obtain ⟨⟨hdigit, hpoint⟩, hmark⟩ : (Text.isDigit c = false ∧ c ≠ '.') ∧
        Decimal.isExponentMark c = false := by
      simpa using List.all_eq_true.mp hapart c (h c rfl)
    exact endsNumber_cons hdigit hpoint hmark

theorem EndsWord.stops {rest : List Char} (h : EndsWord rest) : Stops continuesName rest := by
  have hapart : [' ', '^', ')'].all (fun d => !continuesName d) = true := by
    decide
  exact fun c hc => Bool.not_eq_true' _ ▸ List.all_eq_true.mp hapart c (h c hc)

/-- A word at the front of a text that it is followed by. -/
theorem Spelled.cons_word {token : UnitToken} {tokens : List UnitToken} {word rest : List Char}
    (hword : Spells token word rest) (hrest : Spelled tokens rest) :
    Spelled (token :: tokens) (word ++ rest) := by
  have hblanks : ∀ c ∈ ([] : List Char), Text.isBlank c = true := fun _ hc => nomatch hc
  exact .cons hblanks hword hrest

theorem Spelled.cons_sign {c : Char} {tokens : List UnitToken} {rest : List Char}
    (hc : c ∈ ['/', '^', '(', ')', '·', '-']) (h : Spelled tokens rest) :
    Spelled (.mark (String.ofList [c]) :: tokens) (c :: rest) :=
  .cons_word (.mark hc) h

/-- Words may be indented. -/
theorem Spelled.cons_blank {token : UnitToken} {tokens : List UnitToken} {text : List Char}
    (h : Spelled (token :: tokens) text) : Spelled (token :: tokens) (' ' :: text) := by
  cases h with
  | @cons _ _ blanks word rest hblanks hword hrest =>
    have hmore : ∀ c ∈ ' ' :: blanks, Text.isBlank c = true := List.forall_mem_cons.mpr ⟨by decide, hblanks⟩
    exact .cons hmore hword hrest

/-! ## Characters -/

theorem code_of_isBlank {c : Char} (h : Text.isBlank c = true) :
    c.toNat ≤ 0x20 ∨ c.toNat = 0x85 ∨ c.toNat = 0xa0 ∨ c.toNat = 0x1680 ∨
      0x2000 ≤ c.toNat ∧ c.toNat ≤ 0x205f ∨ c.toNat = 0x3000 := by
  simp only [Text.isBlank, Bool.or_eq_true, Bool.and_eq_true, decide_eq_true_eq, beq_iff_eq] at h
  omega

theorem foreignZeros_apart : ∀ z ∈ Text.foreignZeros, 0x660 ≤ z ∧ (z + 9 < 0x1680 ∨ 0x1680 < z) ∧
    (z + 9 < 0x2000 ∨ 0x205f < z) ∧ (z + 9 < 0x3000 ∨ 0x3000 < z) := by
  decide

theorem code_of_isDigit {c : Char} (h : Text.isDigit c = true) :
    0x30 ≤ c.toNat ∧ c.toNat ≤ 0x39 ∨ 0x660 ≤ c.toNat ∧ c.toNat ≠ 0x1680 ∧
      (c.toNat < 0x2000 ∨ 0x205f < c.toNat) ∧ c.toNat ≠ 0x3000 := by
  rw [Text.isDigit, Text.digitValue?] at h
  split at h
  · rename_i hdigit
    simp only [Char.isDigit, Bool.and_eq_true, decide_eq_true_eq, UInt32.le_iff_toNat_le] at hdigit
    exact .inl hdigit
  · split at h
    · cases h
    · -- a digit of another script is one of the ten behind its zero
      rw [Option.isSome_map] at h
      obtain ⟨z, hz⟩ := Option.isSome_iff_exists.mp h
      have hrange := List.find?_some hz
      have hapart := foreignZeros_apart z (List.mem_of_find?_eq_some hz)
      simp only [Bool.and_eq_true, decide_eq_true_eq] at hrange
      omega

theorem isAlpha_eq (c : Char) : c.isAlpha = (decide ('A'.val ≤ c.val ∧ c.val ≤ 'Z'.val) ||
    decide ('a'.val ≤ c.val) && decide (c.val ≤ 'z'.val)) :=
  rfl

theorem code_of_startsName {c : Char} (h : startsName c = true) :
    0x41 ≤ c.toNat ∧ c.toNat ≤ 0x7a ∨ c.toNat = 0x24 ∨ 0xb0 ≤ c.toNat ∧ c.toNat ≤ 0x3bc := by
  simp only [startsName, isUnitSign, isAlpha_eq, Bool.or_eq_true, Bool.and_eq_true, decide_eq_true_eq,
    beq_iff_eq, UInt32.le_iff_toNat_le] at h
  rcases h with ((h | h) | rfl) | ((((rfl | rfl) | rfl) | rfl) | rfl)
  · exact .inl ⟨h.1, h.2.trans (by decide)⟩
  · exact .inl ⟨le_trans (by decide) h.1, h.2⟩
  all_goals decide

/-! ## Fronts -/

theorem takeWhile_front {p : Char → Bool} {front rest : List Char} (hfront : ∀ c ∈ front, p c = true)
    (hrest : Stops p rest) : (front ++ rest).takeWhile p = front := by
  have hnil : rest.takeWhile p = [] := by
    cases rest with
    | nil => rfl
    | cons c rest => rw [List.takeWhile_cons, hrest c rfl]; rfl
  rw [List.takeWhile_append_of_pos hfront, hnil, List.append_nil]

/-- A power of ten begins with its mark, which is no digit and no point. -/
theorem IsPower.head {power : List Char} (h : IsPower power) :
    ∃ c rest, power = c :: rest ∧ Text.isDigit c = false ∧ c ≠ '.' := by
  obtain ⟨hmark, -, -, -⟩ := h
  rename_i mark sign digits
  refine ⟨mark, _, rfl, ?_⟩
  rw [Decimal.isExponentMark, Bool.or_eq_true, beq_iff_eq, beq_iff_eq] at hmark
  rcases hmark with rfl | rfl
  · decide
  · decide

/-- The digits behind the mark and the sign of a power of ten. -/
theorem powerFront_signed {mark : Char} {sign body : List Char}
    (hmark : Decimal.isExponentMark mark = true)
    (hsplit : sign = ['-'] ∨ sign = ['+'] ∨
      sign = [] ∧ body.head? ≠ some '-' ∧ body.head? ≠ some '+') :
    Decimal.powerFront (mark :: (sign ++ body)) =
      match body.takeWhile Text.isDigit with
      | [] => []
      | ds => mark :: sign ++ ds := by
  unfold Decimal.powerFront
  simp only [hmark, if_true]
  rcases hsplit with rfl | rfl | ⟨rfl, hminus, hplus⟩
  · rfl
  · rfl
  · rcases body with _ | ⟨c, body⟩
    · rfl
    · have hminus : ∀ more, c :: body = '-' :: more → False := fun _ heq => hminus (by rw [heq]; rfl)
      have hplus : ∀ more, c :: body = '+' :: more → False := fun _ heq => hplus (by rw [heq]; rfl)
      rcases hdigits : (c :: body).takeWhile Text.isDigit with _ | ⟨d, ds⟩
      · simp only [List.nil_append, hdigits]
      · simp only [List.nil_append, List.cons_append, hdigits]

/-- The text behind the mark of a power of ten begins with a sign, or it has none. -/
theorem exists_sign (text : List Char) : ∃ sign body, text = sign ++ body ∧
    (sign = ['-'] ∨ sign = ['+'] ∨ sign = [] ∧ body.head? ≠ some '-' ∧ body.head? ≠ some '+') := by
  by_cases hminus : text.head? = some '-'
  · obtain ⟨body, rfl⟩ := List.head?_eq_some_iff.mp hminus
    exact ⟨['-'], body, rfl, .inl rfl⟩
  by_cases hplus : text.head? = some '+'
  · obtain ⟨body, rfl⟩ := List.head?_eq_some_iff.mp hplus
    exact ⟨['+'], body, rfl, .inr (.inl rfl)⟩
  · exact ⟨[], text, rfl, .inr (.inr ⟨rfl, hminus, hplus⟩)⟩

theorem powerFront_eq_nil {rest : List Char} (h : ∀ p, IsPower p → ¬p <+: rest) :
    Decimal.powerFront rest = [] := by
  rcases rest with _ | ⟨mark, text⟩
  · rfl
  rcases hmark : Decimal.isExponentMark mark with _ | _
  · unfold Decimal.powerFront
    simp only [hmark, Bool.false_eq_true, if_false]
  obtain ⟨sign, body, rfl, hsign⟩ := exists_sign text
  rw [powerFront_signed hmark hsign]
  rcases hdigits : body.takeWhile Text.isDigit with _ | ⟨d, ds⟩
  · rfl
  · -- digits behind the mark would be a power of ten at the front
    exfalso
    refine h (mark :: (sign ++ (d :: ds))) ⟨hmark, ?_, ?_, List.cons_ne_nil _ _⟩ ?_
    · rcases hsign with rfl | rfl | ⟨rfl, -, -⟩
      · exact .inr (.inl rfl)
      · exact .inr (.inr rfl)
      · exact .inl rfl
    · intro c hc
      exact List.mem_takeWhile_imp (hdigits ▸ hc)
    · rw [← hdigits, List.cons_prefix_cons]
      exact ⟨rfl, (List.prefix_append_right_inj sign).mpr (List.takeWhile_prefix _)⟩

theorem IsPower.powerFront {power rest : List Char} (h : IsPower power)
    (hrest : Stops Text.isDigit rest) : Decimal.powerFront (power ++ rest) = power := by
  obtain @⟨mark, sign, digits, hmark, hsign, hdigits, hsome⟩ := h
  obtain ⟨d, ds, rfl⟩ := List.exists_cons_of_ne_nil hsome
  have hd : Text.isDigit d = true := hdigits d List.mem_cons_self
  have hsplit : sign = ['-'] ∨ sign = ['+'] ∨ sign = [] ∧
      ((d :: ds) ++ rest).head? ≠ some '-' ∧ ((d :: ds) ++ rest).head? ≠ some '+' := by
    rcases hsign with rfl | rfl | rfl
    · refine .inr (.inr ⟨rfl, ?_, ?_⟩)
      · rintro heq
        cases heq
        exact absurd hd (by decide)
      · rintro heq
        cases heq
        exact absurd hd (by decide)
    · exact .inl rfl
    · exact .inr (.inl rfl)
  rw [List.cons_append, List.append_assoc, powerFront_signed hmark hsplit,
    takeWhile_front hdigits hrest]
  rfl

theorem IsMantissa.numberFront {mantissa rest : List Char} (h : IsMantissa mantissa)
    (hdigit : Stops Text.isDigit rest) (hpoint : rest.head? ≠ some '.') :
    numberFront (mantissa ++ rest) = mantissa ++ Decimal.powerFront rest := by
  cases h with
  | whole h hsome =>
    have hpoint' : (rest.head? == some '.') = false := by simpa using hpoint
    have hempty : mantissa.isEmpty = false := by simpa using hsome
    simp only [UnitToken.numberFront, takeWhile_front h hdigit, List.drop_left, hpoint', hempty,
      Bool.false_and, Bool.false_eq_true, if_false]
  | point hwhole hplaces hsome =>
    rename_i whole places
    have hdot : Stops Text.isDigit ('.' :: (places ++ rest)) := stops_cons (by decide)
    have hempty : (whole.isEmpty && places.isEmpty) = false := by
      rw [Bool.and_eq_false_iff]
      simpa using hsome
    have hmantissa : (whole ++ '.' :: places).isEmpty = false := by simp
    rw [List.append_assoc, List.cons_append]
    simp only [UnitToken.numberFront, takeWhile_front hwhole hdot, List.drop_left, List.drop_succ_cons,
      List.drop_zero, takeWhile_front hplaces hdigit, List.head?_cons, beq_self_eq_true, Bool.true_and,
      hempty, Bool.not_false, if_true, hmantissa, Bool.false_eq_true, if_false]
    rw [← List.cons_append, ← List.append_assoc, List.drop_left]

theorem IsNumber.numberFront {word rest : List Char} (h : IsNumber word) (hrest : EndsNumber rest) :
    numberFront (word ++ rest) = word := by
  cases h with
  | plain h =>
    rw [h.numberFront hrest.digit hrest.point, powerFront_eq_nil hrest.power, List.append_nil]
  | scaled h hpower =>
    obtain ⟨c, tail, rfl, hdigit, hpoint⟩ := hpower.head
    have hstops : Stops Text.isDigit ((c :: tail) ++ rest) := stops_cons hdigit
    have hhead : ((c :: tail) ++ rest).head? ≠ some '.' := fun hc => hpoint (Option.some.inj hc)
    rw [List.append_assoc, h.numberFront hstops hhead, hpower.powerFront hrest.digit]

theorem numberFront_eq_nil {text : List Char} (hdigit : Stops Text.isDigit text)
    (hpoint : text.head? ≠ some '.') : numberFront text = [] := by
  have hwhole : text.takeWhile Text.isDigit = [] :=
    takeWhile_front (fun _ hc => absurd hc List.not_mem_nil) hdigit
  have hpoint' : (text.head? == some '.') = false := by simpa using hpoint
  simp [numberFront, hwhole, hpoint']

/-- A name begins with no digit and no point. -/
theorem numberFront_name {c : Char} {rest : List Char} (h : startsName c = true ∨ c = '\'') :
    numberFront (c :: rest) = [] := by
  have hc : Text.isDigit c = false ∧ c ≠ '.' := by
    rcases h with h | rfl
    · have hcode := code_of_startsName h
      refine ⟨?_, by rintro rfl; exact absurd h (by decide)⟩
      rw [← Bool.not_eq_true]
      intro hdigit
      have hdigit := code_of_isDigit hdigit
      omega
    · decide
  exact numberFront_eq_nil (stops_cons hc.1) fun hd => hc.2 (Option.some.inj hd)

theorem continues_cons {c : Char} {rest : List Char} (hc : startsName c = true)
    (hrest : ∀ d ∈ rest, continuesName d = true) : ∀ d ∈ c :: rest, continuesName d = true := by
  intro d hd
  rcases List.mem_cons.mp hd with rfl | hd
  · rw [continuesName, hc, Bool.true_or]
  · exact hrest d hd

theorem nameFront_plain {c : Char} {text : List Char} (hc : startsName c = true) :
    nameFront (c :: text) = (c :: text).takeWhile continuesName := by
  -- rules the case of a tick out
  have htick : ∀ more, c :: text = '\'' :: more → False := by
    intro more heq
    cases heq
    exact absurd hc (by decide)
  unfold nameFront
  simp only [hc, if_true, List.nil_append]

theorem nameFront_label {c : Char} {text : List Char} (hc : startsName c = true) :
    nameFront ('\'' :: c :: text) = '\'' :: (c :: text).takeWhile continuesName := by
  simp only [nameFront, hc, if_true]
  rfl

theorem IsName.nameFront {word rest : List Char} (h : IsName word) (hrest : Stops continuesName rest) :
    nameFront (word ++ rest) = word := by
  cases h with
  | plain hc htail =>
    rw [List.cons_append, nameFront_plain hc, ← List.cons_append,
      takeWhile_front (continues_cons hc htail) hrest]
  | label hc htail =>
    rw [List.cons_append, List.cons_append, nameFront_label hc, ← List.cons_append,
      takeWhile_front (continues_cons hc htail) hrest]

theorem IsName.numberFront {word rest : List Char} (h : IsName word) :
    UnitToken.numberFront (word ++ rest) = [] := by
  cases h with
  | plain hc => exact numberFront_name (.inl hc)
  | label => exact numberFront_name (.inr rfl)

theorem IsName.ne_nil {word : List Char} (h : IsName word) : word ≠ [] := by
  cases h <;> exact List.cons_ne_nil _ _

theorem IsName.continues_tail {word : List Char} (h : IsName word) :
    ∀ d ∈ word.tail, continuesName d = true := by
  cases h with
  | plain _ htail => exact htail
  | label hc htail => exact continues_cons hc htail

theorem IsMantissa.ne_nil {word : List Char} (h : IsMantissa word) : word ≠ [] := by
  cases h with
  | whole _ hsome => exact hsome
  | point => simp

theorem IsNumber.ne_nil {word : List Char} (h : IsNumber word) : word ≠ [] := by
  cases h with
  | plain h => exact h.ne_nil
  | scaled h => exact List.append_ne_nil_of_left_ne_nil h.ne_nil _

/-- Marks are no numbers and no names. -/
theorem mark_fronts {c : Char} (rest : List Char) (h : c ∈ ['*', '/', '^', '(', ')', '·', '-']) :
    numberFront (c :: rest) = [] ∧ nameFront (c :: rest) = [] := by
  have hapart : ['*', '/', '^', '(', ')', '·', '-'].all (fun d =>
      !Text.isDigit d && d != '.' && !startsName d && d != '\'') = true := by
    decide
  obtain ⟨⟨⟨hdigit, hpoint⟩, hstart⟩, htick⟩ :
      ((Text.isDigit c = false ∧ c ≠ '.') ∧ startsName c = false) ∧ c ≠ '\'' := by
    simpa using List.all_eq_true.mp hapart c h
  constructor
  · exact numberFront_eq_nil (stops_cons hdigit) fun hd => hpoint (Option.some.inj hd)
  · have hplain : ∀ more, c :: rest = '\'' :: more → False := fun _ heq => htick (List.cons.inj heq).1
    unfold nameFront
    simp only [hstart, Bool.false_eq_true, if_false]

theorem markFront_single {c : Char} (rest : List Char) (h : c ∈ ['*', '/', '^', '(', ')', '·', '-'])
    (hrest : c = '*' → rest.head? ≠ some '*') : markFront (c :: rest) = [c] := by
  unfold markFront
  split
  · rename_i heq
    cases heq
    exact absurd rfl (hrest rfl)
  · rename_i heq
    cases heq
    rw [if_pos (List.contains_iff_mem.mpr h)]
  · rename_i heq
    cases heq

theorem front?_number {text : List Char} (h : numberFront text ≠ []) :
    front? text = some (.number (String.ofList (numberFront text))) ∧
      frontLength text = (numberFront text).length := by
  rcases hfront : numberFront text with _ | ⟨c, rest⟩
  · exact absurd hfront h
  · simp [front?, frontLength, hfront]

theorem front?_name {text : List Char} (hnumber : numberFront text = []) (h : nameFront text ≠ []) :
    front? text = some (if String.ofList (nameFront text) == "per" then .mark "/"
      else .name (String.ofList (nameFront text))) ∧
      frontLength text = (nameFront text).length := by
  rcases hfront : nameFront text with _ | ⟨c, rest⟩
  · exact absurd hfront h
  · simp [front?, frontLength, hnumber, hfront]

theorem front?_mark {text : List Char} (hnumber : numberFront text = []) (hname : nameFront text = [])
    (h : markFront text ≠ []) :
    front? text = some (.mark (String.ofList (markFront text))) ∧
      frontLength text = (markFront text).length := by
  rcases hfront : markFront text with _ | ⟨c, rest⟩
  · exact absurd hfront h
  · simp [front?, frontLength, hnumber, hname, hfront]

/-- The first token of a text is the one that is spelled at its front. -/
theorem Spells.front {token : UnitToken} {word rest : List Char} (h : Spells token word rest) :
    front? (word ++ rest) = some token ∧ frontLength (word ++ rest) = word.length := by
  cases h with
  | number h hrest =>
    have hfront := h.numberFront hrest
    have := front?_number (by rw [hfront]; exact h.ne_nil)
    rwa [hfront, String.ofList_toList] at this
  | name h hper hrest =>
    have hfront := h.nameFront hrest
    have := front?_name h.numberFront (by rw [hfront]; exact h.ne_nil)
    rwa [hfront, String.ofList_toList, if_neg (by simpa using hper)] at this
  -- the word for a slash has the letters of a name
  | per hrest =>
    have hname : IsName ['p', 'e', 'r'] := .plain (by decide) (List.all_eq_true.mp (by decide))
    have hfront := hname.nameFront hrest
    have := front?_name hname.numberFront (by rw [hfront]; exact hname.ne_nil)
    rwa [hfront] at this
  -- no single mark but a star may begin a longer one
  | mark h =>
    have hmem := List.mem_cons_of_mem '*' h
    have hstar : '*' ∉ ['/', '^', '(', ')', '·', '-'] := by decide
    have hfront := markFront_single rest hmem fun heq => absurd (heq ▸ h) hstar
    obtain ⟨hnumber, hname⟩ := mark_fronts rest hmem
    have := front?_mark hnumber hname (by rw [hfront]; exact List.cons_ne_nil _ _)
    rwa [hfront] at this
  | times hrest =>
    have hmem : '*' ∈ ['*', '/', '^', '(', ')', '·', '-'] := List.mem_cons_self
    have hfront := markFront_single rest hmem fun _ => hrest
    obtain ⟨hnumber, hname⟩ := mark_fronts rest hmem
    have := front?_mark hnumber hname (by rw [hfront]; exact List.cons_ne_nil _ _)
    rwa [hfront] at this
  | stars =>
    obtain ⟨hnumber, hname⟩ := mark_fronts (c := '*') ('*' :: rest) List.mem_cons_self
    exact front?_mark hnumber hname (List.cons_ne_nil _ _)

/-! ## Blanks -/

theorem isBlank_eq_false_of_digit {c : Char} (h : Text.isDigit c = true) : Text.isBlank c = false := by
  rw [← Bool.not_eq_true]
  intro hblank
  have hdigit := code_of_isDigit h
  have hblank := code_of_isBlank hblank
  omega

theorem isBlank_eq_false_of_continuesName {c : Char} (h : continuesName c = true) :
    Text.isBlank c = false := by
  rw [← Bool.not_eq_true]
  intro hblank
  have hblank := code_of_isBlank hblank
  rw [continuesName, Bool.or_eq_true] at h
  rcases h with h | h
  · have hcode := code_of_startsName h
    omega
  · simp only [Char.isDigit, Bool.and_eq_true, decide_eq_true_eq, UInt32.le_iff_toNat_le] at h
    have h1 : 48 ≤ c.toNat := h.1
    have h2 : c.toNat ≤ 57 := h.2
    omega

/-- No character of a word is a blank. -/
def BlankFree (word : List Char) : Prop :=
  ∀ c ∈ word, Text.isBlank c = false

theorem blankFree_of_any {word : List Char} (h : word.any Text.isBlank = false) : BlankFree word :=
  fun c hc => Bool.eq_false_iff.mpr (List.any_eq_false.mp h c hc)

theorem BlankFree.append {v w : List Char} (hv : BlankFree v) (hw : BlankFree w) :
    BlankFree (v ++ w) :=
  fun c hc => (List.mem_append.mp hc).elim (hv c) (hw c)

theorem AllDigits.blankFree {word : List Char} (h : AllDigits word) : BlankFree word :=
  fun c hc => isBlank_eq_false_of_digit (h c hc)

theorem IsMantissa.blankFree {word : List Char} (h : IsMantissa word) : BlankFree word := by
  cases h with
  | whole h => exact h.blankFree
  | point hwhole hplaces =>
    rw [List.append_cons]
    have hpoint : BlankFree ['.'] := blankFree_of_any (by decide)
    exact (hwhole.blankFree.append hpoint).append hplaces.blankFree

theorem IsPower.blankFree {word : List Char} (h : IsPower word) : BlankFree word := by
  obtain ⟨hmark, hsign, hdigits, -⟩ := h
  rw [Decimal.isExponentMark, Bool.or_eq_true, beq_iff_eq, beq_iff_eq] at hmark
  have hfront : BlankFree ['e', 'E', '-', '+'] := blankFree_of_any (by decide)
  intro c hc
  rcases List.mem_cons.mp hc with rfl | hc
  · rcases hmark with rfl | rfl <;> decide
  rcases List.mem_append.mp hc with hc | hc
  · rcases hsign with rfl | rfl | rfl
    · cases hc
    · exact hfront c (by simp_all)
    · exact hfront c (by simp_all)
  · exact hdigits.blankFree c hc

theorem IsNumber.blankFree {word : List Char} (h : IsNumber word) : BlankFree word := by
  cases h with
  | plain h => exact h.blankFree
  | scaled h hpower => exact h.blankFree.append hpower.blankFree

theorem IsName.blankFree {word : List Char} (h : IsName word) : BlankFree word := by
  cases h with
  | plain hc htail => exact fun d hd => isBlank_eq_false_of_continuesName (continues_cons hc htail d hd)
  | label hc htail =>
    intro d hd
    rcases List.mem_cons.mp hd with rfl | hd
    · decide
    · exact isBlank_eq_false_of_continuesName (continues_cons hc htail d hd)

theorem Spells.ne_nil {token : UnitToken} {word rest : List Char} (h : Spells token word rest) :
    word ≠ [] := by
  cases h with
  | number h => exact h.ne_nil
  | name h => exact h.ne_nil
  | per | mark | times | stars => exact List.cons_ne_nil _ _

theorem Spells.blankFree {token : UnitToken} {word rest : List Char} (h : Spells token word rest) :
    BlankFree word := by
  cases h with
  | number h => exact h.blankFree
  | name h => exact h.blankFree
  | per => exact blankFree_of_any (by decide)
  | mark h =>
    have hmarks : BlankFree ['/', '^', '(', ')', '·', '-'] := blankFree_of_any (by decide)
    intro c hc
    exact hmarks c (List.mem_singleton.mp hc ▸ h)
  | times => exact blankFree_of_any (by decide)
  | stars => exact blankFree_of_any (by decide)

/-! ## Texts -/

/-- The first token is taken together with the blanks in front of it. -/
theorem Spells.next {R : Type} {token : UnitToken} {blanks word rest : List Char}
    (h : Spells token word rest) (hblanks : ∀ c ∈ blanks, Text.isBlank c = true) (unit : String)
    (column : Nat) (c : Char) :
    next (R := R) unit column c (blanks ++ (word ++ rest)) = .ok (token, (blanks ++ word).length) := by
  have hstops : Stops Text.isBlank (word ++ rest) := by
    obtain ⟨d, tail, rfl⟩ := List.exists_cons_of_ne_nil h.ne_nil
    exact stops_cons (h.blankFree d List.mem_cons_self)
  obtain ⟨hfront, hlength⟩ := h.front
  rw [UnitToken.next, takeWhile_front hblanks hstops, List.drop_left, hfront, hlength,
    List.length_append]

/-- **The tokens of a text are those that it spells.** -/
theorem Spelled.scan {R : Type} {tokens : List UnitToken} {text : List Char} (h : Spelled tokens text)
    (unit : String) {limit : Nat} (column : Nat) (hlimit : text.length ≤ limit) :
    scan (R := R) unit limit column text = .ok tokens := by
  induction h generalizing limit column with
  | nil => rw [UnitToken.scan]
  | cons hblanks hword hrest ih =>
    rename_i token tokens blanks word rest
    have hpositive : 0 < word.length := List.length_pos_iff.mpr hword.ne_nil
    have hlengths : (blanks ++ (word ++ rest)).length = blanks.length + (word.length + rest.length) := by
      rw [List.length_append, List.length_append]
    obtain ⟨limit, rfl⟩ := Nat.exists_eq_succ_of_ne_zero (n := limit) (by omega)
    rcases htext : blanks ++ (word ++ rest) with _ | ⟨c, text⟩
    · rw [htext] at hlengths
      simp only [List.length_nil] at hlengths
      omega
    have hdrop : (c :: text).drop (blanks ++ word).length = rest := by
      rw [← htext, ← List.append_assoc, List.drop_left]
    have hnext := hword.next (R := R) hblanks unit column c
    rw [htext] at hnext
    rw [UnitToken.scan, hnext]
    have hrun := ih (column + (blanks ++ word).length) (show rest.length ≤ limit by omega)
    simp only [bind, Except.bind, hdrop, hrun]
    rfl

theorem Spelled.ne_nil {token : UnitToken} {tokens : List UnitToken} {text : List Char}
    (h : Spelled (token :: tokens) text) : text ≠ [] := by
  cases h with
  | cons hblanks hword hrest =>
    exact List.append_ne_nil_of_right_ne_nil _ (List.append_ne_nil_of_left_ne_nil hword.ne_nil _)

/-- A text does not end in a blank. -/
theorem Spelled.last {tokens : List UnitToken} {text : List Char} (h : Spelled tokens text) :
    ∀ c ∈ text.getLast?, Text.isBlank c = false := by
  induction h with
  | nil => exact fun c hc => absurd hc (Option.not_mem_none c)
  | cons hblanks hword hrest ih =>
    rename_i token tokens blanks word rest
    intro c hc
    have hsome : word.getLast? = some (word.getLast hword.ne_nil) := List.getLast?_eq_some_getLast _
    rw [List.getLast?_append, List.getLast?_append, hsome] at hc
    rcases hlast : rest.getLast? with _ | d
    · -- the last word ends the text
      rw [hlast] at hc
      cases hc
      exact hword.blankFree _ (List.getLast_mem _)
    · rw [hlast] at hc
      cases hc
      exact ih _ hlast

theorem trimEnd_core {core back : List Char} (hback : ∀ c ∈ back, Text.isBlank c = true)
    (hlast : ∀ c ∈ core.getLast?, Text.isBlank c = false) : Text.trimEnd (core ++ back) = core := by
  have hback' : ∀ c ∈ back.reverse, Text.isBlank c = true := fun c hc => hback c (List.mem_reverse.mp hc)
  rw [Text.trimEnd, List.reverse_append, List.dropWhile_append_of_pos hback']
  rcases core.eq_nil_or_concat with rfl | ⟨init, d, rfl⟩
  · rfl
  · have hd : Text.isBlank d = false := hlast d (by simp)
    rw [List.concat_eq_append, List.reverse_concat, List.dropWhile_cons_of_neg (by simp [hd]),
      List.reverse_cons, List.reverse_reverse]

theorem trimStart_core {front core : List Char} (hfront : ∀ c ∈ front, Text.isBlank c = true)
    (hfirst : Stops Text.isBlank core) : Text.trimStart (front ++ core) = core := by
  rw [Text.trimStart, List.dropWhile_append_of_pos hfront]
  rcases core with _ | ⟨c, core⟩
  · rfl
  · rw [List.dropWhile_cons_of_neg (by simp [hfirst c rfl])]

/-- **A text that spells tokens is scanned as these tokens**, whatever blanks stand at its ends. -/
theorem ofText_spelled {R : Type} {token : UnitToken} {tokens : List UnitToken}
    {body back : List Char} (h : Spelled (token :: tokens) body)
    (hback : ∀ c ∈ back, Text.isBlank c = true) {text : String} (htext : text.toList = body ++ back) :
    (Text.trimText text).isEmpty = false ∧
      UnitToken.ofText (R := R) (Text.trimText text) = .ok (token :: tokens) := by
  cases h with
  | cons hblanks hword hrest =>
    rename_i blanks word rest
    obtain ⟨d, word, rfl⟩ := List.exists_cons_of_ne_nil hword.ne_nil
    -- the text between the blanks at its ends
    have hnone : ∀ c ∈ ([] : List Char), Text.isBlank c = true :=
      fun c hc => absurd hc List.not_mem_nil
    have hcore : Spelled (token :: tokens) ((d :: word) ++ rest) := .cons hnone hword hrest
    have hfirst : Stops Text.isBlank (((d :: word) ++ rest) ++ back) :=
      stops_cons (hword.blankFree d List.mem_cons_self)
    have htrim : Text.trimText text = String.ofList ((d :: word) ++ rest) := by
      rw [Text.trimText, htext, Text.trim, List.append_assoc, trimStart_core hblanks hfirst,
        trimEnd_core hback hcore.last]
    refine ⟨by simp [htrim], ?_⟩
    have hend : Text.trimEnd ((d :: word) ++ rest) = (d :: word) ++ rest := by
      have := trimEnd_core hnone hcore.last
      rwa [List.append_nil] at this
    rw [htrim, UnitToken.ofText, String.toList_ofList, hend]
    exact hcore.scan _ _ le_rfl

/-! ## Fronts of texts -/

/-- A text that spells tokens in front of anything that may follow a word. -/
def SpelledFront (tokens : List UnitToken) (text : List Char) : Prop :=
  ∀ more rest, Spelled more rest → EndsWord rest → Spelled (tokens ++ more) (text ++ rest)

/-- A text that may follow a word, if what comes behind it may. -/
def Follows (text : List Char) : Prop :=
  ∀ rest, EndsWord rest → EndsWord (text ++ rest)

theorem follows_nil : Follows [] :=
  fun _ h => h

theorem follows_cons {c : Char} {text : List Char} (hc : c ∈ [' ', '^', ')']) : Follows (c :: text) :=
  fun _ _ => endsWord_cons hc

namespace SpelledFront

variable {tokens more : List UnitToken} {text next : List Char}

theorem nil : SpelledFront [] [] :=
  fun _ _ hmore _ => hmore

theorem name {text : String} (h : IsName text.toList) (hper : text ≠ "per") :
    SpelledFront [.name text] text.toList :=
  fun _ _ hmore hrest => .cons_word (.name h hper hrest.stops) hmore

theorem per : SpelledFront [.mark "/"] "per".toList :=
  fun _ _ hmore hrest => .cons_word (.per hrest.stops) hmore

theorem number {text : String} (h : IsNumber text.toList) : SpelledFront [.number text] text.toList :=
  fun _ _ hmore hrest => .cons_word (.number h hrest.endsNumber) hmore

/-- A sign may stand in front of anything. -/
theorem sign {c : Char} (hc : c ∈ ['/', '^', '(', ')', '·', '-']) (h : SpelledFront tokens text) :
    SpelledFront (.mark (String.ofList [c]) :: tokens) (c :: text) :=
  fun _ _ hmore hrest => (h _ _ hmore hrest).cons_sign hc

theorem times : SpelledFront [.mark "*"] ['*'] :=
  fun _ _ hmore hrest => .cons_word (.times fun hhead => absurd (hrest _ hhead) (by decide)) hmore

theorem stars : SpelledFront [.mark "**"] ['*', '*'] :=
  fun _ _ hmore _ => .cons_word .stars hmore

theorem blank {token : UnitToken} (h : SpelledFront (token :: tokens) text) :
    SpelledFront (token :: tokens) (' ' :: text) :=
  fun _ _ hmore hrest => (h _ _ hmore hrest).cons_blank

theorem append (h : SpelledFront tokens text) (hnext : SpelledFront more next) (hfollows : Follows next) :
    SpelledFront (tokens ++ more) (text ++ next) := by
  intro later back hlater hback
  rw [List.append_assoc, List.append_assoc]
  exact h _ _ (hnext _ _ hlater hback) (hfollows back hback)

theorem close (h : SpelledFront tokens text) :
    SpelledFront (tokens ++ [.mark ")"]) (text ++ [')']) :=
  h.append (nil.sign (by decide)) (follows_cons (by decide))

theorem spelled (h : SpelledFront tokens text) : Spelled tokens text := by
  have hall := h [] [] .nil endsWord_nil
  rwa [List.append_nil, List.append_nil] at hall

theorem ofText {R : Type} {token : UnitToken} {text : String}
    (h : SpelledFront (token :: tokens) text.toList) : (Text.trimText text).isEmpty = false ∧
      UnitToken.ofText (R := R) (Text.trimText text) = .ok (token :: tokens) := by
  have hback : ∀ c ∈ ([] : List Char), Text.isBlank c = true := fun _ hc => absurd hc List.not_mem_nil
  exact ofText_spelled h.spelled hback (List.append_nil _).symm

end SpelledFront

end UnitToken

end Ballpark
