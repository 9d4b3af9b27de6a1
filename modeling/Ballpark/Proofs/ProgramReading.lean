import Ballpark.Proofs.Outcome
import Ballpark.Proofs.ProgramGrammar
import Ballpark.Proofs.Vocabulary

/-!
# Reading expressions

Whatever tokens write an expression, reading them gives that expression and leaves what stands behind
them (`TokenReader.reads_of_writes`). Each reader of the grammar has one lemma for every way it can go;
what a reader leaves to the loop of its level is recorded by `Reads`, and the proof is one induction over
the writing. Limits count twelve for each token, which pays for one descent through all levels.
-/

namespace Ballpark

namespace TokenReader

open Reader

/-! ## Single steps -/

theorem run_peek (offset : Nat) (tokens : List Token) :
    (peek offset).run tokens = .ok (tokenAt tokens offset, tokens) :=
  rfl

theorem run_skip (count : Nat) (tokens : List Token) :
    (skip count).run tokens = .ok (⟨⟩, tokens.drop count) :=
  rfl

@[simp] theorem tokenAt_zero (t : Token) (tokens : List Token) : tokenAt (t :: tokens) 0 = t := rfl

@[simp] theorem tokenAt_one (t u : Token) (tokens : List Token) : tokenAt (t :: u :: tokens) 1 = u := rfl

@[simp] theorem tokenAt_two (t u v : Token) (tokens : List Token) :
    tokenAt (t :: u :: v :: tokens) 2 = v := rfl

theorem run_atMark (marks : List String) (t : Token) (tokens : List Token) :
    (atMark marks).run (t :: tokens) = .ok (isMark marks t, t :: tokens) :=
  rfl

theorem run_atWord (word : String) (t : Token) (tokens : List Token) :
    (atWord word).run (t :: tokens) = .ok (isWord word t, t :: tokens) :=
  rfl

theorem run_advance {t : Token} (h : t.kind ≠ .finish) (tokens : List Token) :
    advance.run (t :: tokens) = .ok (t, tokens) := by
  rw [advance, run_bind_of_ok (run_peek 0 _), tokenAt_zero]
  simp only [bne_iff_ne, ne_eq, h, not_false_eq_true, if_true]
  rfl

theorem isMark_of_is {t : Token} {text : String} {marks : List String} (h : t.Is .mark text)
    (hmem : text ∈ marks) : isMark marks t = true := by
  obtain ⟨hkind, htext⟩ := h
  rw [isMark, hkind, htext, List.contains_iff_mem.mpr hmem]
  rfl

theorem not_isMark_of_is {t : Token} {text : String} {marks : List String} (h : t.Is .mark text)
    (hmem : text ∉ marks) : isMark marks t = false := by
  obtain ⟨hkind, htext⟩ := h
  rw [isMark, htext, Bool.and_eq_false_iff]
  exact .inr (by simpa using hmem)

theorem not_isMark_of_kind {t : Token} (h : t.kind ≠ .mark) (marks : List String) :
    isMark marks t = false := by
  rw [isMark, beq_eq_false_iff_ne.mpr h, Bool.false_and]

theorem not_isMark_of_subset {t : Token} {marks fewer : List String} (h : isMark marks t = false)
    (hsub : ∀ m ∈ fewer, m ∈ marks) : isMark fewer t = false := by
  rw [← Bool.not_eq_true] at h ⊢
  rw [isMark, Bool.and_eq_true, List.contains_iff_mem] at h ⊢
  exact fun hfewer => h ⟨hfewer.1, hsub _ hfewer.2⟩

theorem isWord_of_is {t : Token} {word : String} (h : t.Is .name word) : isWord word t = true := by
  obtain ⟨hkind, htext⟩ := h
  rw [isWord, hkind, htext]
  simp

theorem not_isWord_of_is {t : Token} {text word : String} (h : t.Is .name text) (hne : text ≠ word) :
    isWord word t = false := by
  rw [isWord, h.2, beq_eq_false_iff_ne.mpr hne, Bool.and_false]

theorem not_isWord_of_kind {t : Token} (h : t.kind ≠ .name) (word : String) :
    isWord word t = false := by
  rw [isWord, beq_eq_false_iff_ne.mpr h, Bool.false_and]

theorem not_isFreeName_of_kind {t : Token} (h : t.kind ≠ .name) : isFreeName t = false := by
  rw [isFreeName, beq_eq_false_iff_ne.mpr h, Bool.false_and]

theorem not_isUnit {t : Token} (hlabel : t.kind ≠ .label) (hname : isFreeName t = false) :
    isUnit t = false := by
  rw [isUnit, beq_eq_false_iff_ne.mpr hlabel, hname, Bool.false_and, Bool.or_false]

theorem kind_of_isUnit {t : Token} (h : isUnit t = true) : t.kind = .label ∨ t.kind = .name := by
  rw [isUnit, isFreeName, Bool.or_eq_true, Bool.and_eq_true, Bool.and_eq_true] at h
  rcases h with h | h
  · exact .inl (beq_iff_eq.mp h)
  · exact .inr (beq_iff_eq.mp h.1.1)

theorem not_isWord_per {t : Token} (h : isUnit t = true) : isWord "per" t = false := by
  rcases hword : isWord "per" t with _ | _
  · rfl
  · rw [isWord, Bool.and_eq_true, beq_iff_eq, beq_iff_eq] at hword
    rw [isUnit, hword.1, hword.2, UnitName.not_isKnown_per, Bool.and_false] at h
    exact absurd h (by decide)

theorem run_expectMark {t : Token} {mark : String} (h : t.Is .mark mark) (tokens : List Token) :
    (expectMark mark).run (t :: tokens) = .ok (⟨⟩, tokens) := by
  rw [expectMark, run_bind_of_ok (run_atMark _ _ _), isMark_of_is h List.mem_cons_self]
  rfl

theorem run_expectWord {t : Token} {word : String} (h : t.Is .name word) (tokens : List Token) :
    (expectWord word).run (t :: tokens) = .ok (⟨⟩, tokens) := by
  rw [expectWord, run_bind_of_ok (run_atWord _ _ _), isWord_of_is h]
  rfl

theorem run_expectName {t : Token} (h : isFreeName t = true) (tokens : List Token) :
    expectName.run (t :: tokens) = .ok (t.text, tokens) := by
  rw [expectName, run_bind_of_ok (run_peek _ _), tokenAt_zero, if_pos h]
  rfl

/-! ## Units -/

theorem run_unitWords {words after : List String} {tokens : List Token}
    (h : ContinuesUnit words tokens after) {limit : Nat} {t : Token} {rest : List Token}
    (hlimit : tokens.length ≤ limit) (hpower : isMark ["^", "**"] t = false)
    (hslash : isMark ["/"] t = false ∧ isWord "per" t = false) (hunit : isUnit t = false) :
    (unitWords limit words).run (tokens ++ t :: rest) = .ok (after, t :: rest) := by
  induction h generalizing limit with
  -- nothing of the unit is left, and the next token is none that goes on with it
  | nil =>
    cases limit with
    | zero => rfl
    | succ limit =>
      rw [List.nil_append, unitWords, run_bind_of_ok (run_peek _ _), run_bind_of_ok (run_peek _ _)]
      simp only [tokenAt_zero, hpower, hslash.1, hslash.2, hunit, Bool.or_false, Bool.false_and,
        Bool.false_eq_true, if_false]
      rfl
  | raised hhat hnumber h ih =>
    obtain ⟨limit, rfl⟩ := Nat.exists_eq_succ_of_ne_zero (n := limit) (by rintro rfl; simp at hlimit)
    rw [List.cons_append, List.cons_append, unitWords, run_bind_of_ok (run_peek _ _),
      run_bind_of_ok (run_peek _ _), tokenAt_zero, tokenAt_one, if_pos hhat, hnumber,
      if_pos (by decide), run_bind_of_ok (run_skip _ _)]
    exact ih (by simp at hlimit; omega)
  | lowered hhat hminus hnumber h ih =>
    obtain ⟨limit, rfl⟩ := Nat.exists_eq_succ_of_ne_zero (n := limit) (by rintro rfl; simp at hlimit)
    have hsign : isMark ["-"] _ = true := isMark_of_is hminus List.mem_cons_self
    rw [List.cons_append, List.cons_append, List.cons_append, unitWords,
      run_bind_of_ok (run_peek _ _), run_bind_of_ok (run_peek _ _), tokenAt_zero, tokenAt_one,
      if_pos hhat, hminus.1, if_neg (by decide), run_bind_of_ok (run_peek _ _), tokenAt_two, hnumber,
      if_pos (by rw [hsign]; decide), run_bind_of_ok (run_skip _ _)]
    exact ih (by simp at hlimit; omega)
  | divided hslash hunit h ih =>
    rename_i words after slash unit tokens
    obtain ⟨limit, rfl⟩ := Nat.exists_eq_succ_of_ne_zero (n := limit) (by rintro rfl; simp at hlimit)
    have hhat : isMark ["^", "**"] slash = false := by
      rcases hslash with h | h
      · exact not_isMark_of_is h (by decide)
      · exact not_isMark_of_kind (by rw [h.1]; decide) _
    -- a slash or the word for one
    have hover : (isMark ["/"] slash || isWord "per" slash) = true := by
      rcases hslash with h | h
      · rw [isMark_of_is h List.mem_cons_self, Bool.true_or]
      · rw [isWord_of_is h, Bool.or_true]
    rw [List.cons_append, List.cons_append, unitWords, run_bind_of_ok (run_peek _ _),
      run_bind_of_ok (run_peek _ _), tokenAt_zero, tokenAt_one, hhat, hover, hunit]
    exact ih (by simp at hlimit; omega)
  | beside hunit h ih =>
    rename_i words after unit tokens
    obtain ⟨limit, rfl⟩ := Nat.exists_eq_succ_of_ne_zero (n := limit) (by rintro rfl; simp at hlimit)
    -- a unit is a name or a label, so none of the marks in front of it in the reader fits
    have hkind : unit.kind ≠ .mark := by
      rcases kind_of_isUnit hunit with h | h <;> rw [h] <;> decide
    rw [List.cons_append, unitWords, run_bind_of_ok (run_peek _ _), run_bind_of_ok (run_peek _ _),
      tokenAt_zero, not_isMark_of_kind hkind, not_isMark_of_kind hkind, not_isWord_per hunit, hunit]
    exact ih (by simp at hlimit; omega)

/-- A unit in front of a closing parenthesis is read as a whole. -/
theorem run_unitText {unit : String} {tokens : List Token} (h : WritesUnit unit tokens) {closing : Token}
    (hclosing : closing.Is .mark ")") (rest : List Token) :
    unitText.run (tokens ++ closing :: rest) = .ok (unit, closing :: rest) := by
  obtain ⟨hfirst, hcontinues⟩ := h
  rename_i first tokens words
  have hkind : first.kind ≠ .finish := by
    rcases kind_of_isUnit hfirst with h | h <;> rw [h] <;> decide
  have hfree : isFreeName closing = false := not_isFreeName_of_kind (by rw [hclosing.1]; decide)
  have hlimit : tokens.length ≤ (tokens ++ closing :: rest).length := by
    simp
  have hwords : (unitWords (tokens ++ closing :: rest).length [first.text]).run (tokens ++ closing :: rest) =
      .ok (words, closing :: rest) :=
    run_unitWords hcontinues hlimit (not_isMark_of_is hclosing (by decide))
      ⟨not_isMark_of_is hclosing (by decide), not_isWord_of_kind (by rw [hclosing.1]; decide) _⟩
      (not_isUnit (by rw [hclosing.1]; decide) hfree)
  rw [List.cons_append, unitText, run_bind_of_ok (run_advance hkind _), run_bind_of_ok (run_get _),
    run_bind_of_ok hwords]
  rfl

theorem run_trailingUnit {unit : String} {tokens : List Token} (h : WritesUnit unit tokens)
    {closing : Token} (hclosing : closing.Is .mark ")") (rest : List Token) :
    trailingUnit.run (tokens ++ closing :: rest) = .ok (some unit, closing :: rest) := by
  have hread := run_unitText h hclosing rest
  obtain ⟨hfirst, -⟩ := h
  rw [List.cons_append] at hread
  rw [trailingUnit, run_bind_of_ok (run_peek _ _), run_bind_of_ok (run_peek _ _), isUnitWord,
    List.cons_append, tokenAt_zero, hfirst, Bool.true_or, if_pos rfl, run_bind_of_ok hread]
  rfl

/-- No unit follows where no name and no label does. -/
theorem run_trailingUnit_none {t : Token} (hlabel : t.kind ≠ .label) (hname : isFreeName t = false)
    (rest : List Token) : trailingUnit.run (t :: rest) = .ok (none, t :: rest) := by
  rw [trailingUnit, run_bind_of_ok (run_peek _ _), run_bind_of_ok (run_peek _ _), isUnitWord,
    tokenAt_zero, not_isUnit hlabel hname, hname]
  rfl

/-! ## Readers and their loops -/

/-- The reader of a level. -/
def reader : Precedence → Nat → TokenReader Node
  | .expression => expression
  | .comparison => comparison
  | .additive => additive
  | .term => term
  | .range => range
  | .unary => unary
  | .power => power
  | .twiddled => twiddled
  | .primary => primary

/-- What a reader goes on with when it has read an operand of its level. -/
def loop : Precedence → Nat → Node → TokenReader Node
  | .expression => conversions
  | .additive => additiveRest
  | .term => termRest
  | .twiddled => twiddledRest
  | .comparison | .range | .unary | .power | .primary => fun _ n => pure n

theorem not_isTwiddle {t : Token} (h : isMark ["~"] t = false) (number mark : Token) :
    isTwiddle t number mark = false := by
  rw [isTwiddle, h, Bool.false_and, Bool.false_and]

/-- A loop is over where its level does not go on. -/
theorem run_loop {level : Precedence} {t : Token} (h : level.goesOn t = false) (limit : Nat) (n : Node)
    (rest : List Token) : (loop level (limit + 1) n).run (t :: rest) = .ok (n, t :: rest) := by
  cases level with
  | expression =>
    rw [Precedence.goesOn, Bool.or_eq_false_iff] at h
    rw [loop, conversions, run_bind_of_ok (run_atMark _ _ _), run_bind_of_ok (run_atWord _ _ _), h.1, h.2]
    rfl
  | additive =>
    rw [loop, additiveRest, run_bind_of_ok (run_peek _ _), tokenAt_zero]
    rw [Precedence.goesOn] at h
    rw [h]
    rfl
  | term =>
    rw [loop, termRest, run_bind_of_ok (run_peek _ _), tokenAt_zero]
    rw [Precedence.goesOn] at h
    rw [h]
    rfl
  | twiddled =>
    rw [Precedence.goesOn] at h
    -- a factor of precision begins with a tilde
    have htwiddle : atTwiddle.run (t :: rest) = .ok (false, t :: rest) := by
      rw [atTwiddle, run_bind_of_ok (run_peek _ _), run_bind_of_ok (run_peek _ _),
        run_bind_of_ok (run_peek _ _), tokenAt_zero, not_isTwiddle h]
      rfl
    rw [loop, twiddledRest, run_bind_of_ok htwiddle]
    rfl
  | comparison | range | unary | power | primary => rfl

/-- Down to the next tighter level, and up again where that one is over. -/
theorem run_reader {level next : Precedence} (hnext : level.next? = some next) {limit : Nat} {n : Node}
    {tokens rest : List Token} {t : Token} (h : (reader next limit).run tokens = .ok (n, t :: rest))
    (hends : level.reach < level.rank → level.goesOn t = false)
    (hsigns : level = .unary → isMark ["-"] (tokenAt tokens 0) = false ∧
      isMark ["+"] (tokenAt tokens 0) = false) :
    (reader level (limit + 1)).run tokens = (loop level limit n).run (t :: rest) := by
  cases level with
  | expression =>
    cases hnext
    simp only [reader] at h ⊢
    rw [expression, run_bind_of_ok h]
    rfl
  | comparison =>
    cases hnext
    -- at most one comparison: behind it the reader asks for no more
    have hmark := hends (by decide)
    rw [Precedence.goesOn] at hmark
    simp only [reader] at h ⊢
    rw [comparison, run_bind_of_ok h, run_bind_of_ok (run_peek _ _), tokenAt_zero, hmark]
    rfl
  | additive =>
    cases hnext
    simp only [reader] at h ⊢
    rw [additive, run_bind_of_ok h]
    rfl
  | term =>
    cases hnext
    simp only [reader] at h ⊢
    rw [term, run_bind_of_ok h]
    rfl
  | range =>
    cases hnext
    have hmarks := hends (by decide)
    simp only [Precedence.goesOn, Bool.or_eq_false_iff] at hmarks
    obtain ⟨⟨⟨⟨hto, hdots⟩, hspread⟩, hout⟩, hagainst⟩ := hmarks
    simp only [reader] at h ⊢
    rw [range, run_bind_of_ok h, run_bind_of_ok (run_peek _ _), tokenAt_zero, hto, hdots,
      hspread, hout, hagainst]
    rfl
  | unary =>
    cases hnext
    -- signs stand in front, so this level looks at the first token and not at the next one
    obtain ⟨hminus, hplus⟩ := hsigns rfl
    rw [reader, unary, run_bind_of_ok (run_peek _ _), hminus, hplus]
    exact h
  | power =>
    cases hnext
    have hhat := hends (by decide)
    rw [Precedence.goesOn] at hhat
    simp only [reader] at h ⊢
    rw [power, run_bind_of_ok h, run_bind_of_ok (run_atMark _ _ _), hhat]
    rfl
  | twiddled =>
    cases hnext
    simp only [reader] at h ⊢
    rw [twiddled, run_bind_of_ok h]
    rfl
  | primary => cases hnext

/-! ## Ends of expressions -/

/-- No reader goes on at this token. -/
def Closes (t : Token) : Prop :=
  ∀ m : Precedence, m.goesOn t = false

theorem Closes.ends {t : Token} (h : Closes t) (level : Precedence) (last : Bool) : level.Ends last t :=
  fun m _ => h m

theorem closes_of_mark {t : Token} {text : String} (h : t.Is .mark text)
    (hmem : text ∈ [")", ",", ":", "\x7d"]) : Closes t := by
  obtain ⟨kind, text', line, column⟩ := t
  obtain ⟨rfl, rfl⟩ := h
  simp only [List.mem_cons, List.not_mem_nil, or_false] at hmem
  rcases hmem with rfl | rfl | rfl | rfl <;> (intro m; cases m <;> rfl)

theorem closes_of_word {t : Token} {word : String} (h : t.Is .name word)
    (hmem : word ∈ ["in", "then", "else"]) : Closes t := by
  obtain ⟨kind, text', line, column⟩ := t
  obtain ⟨rfl, rfl⟩ := h
  simp only [List.mem_cons, List.not_mem_nil, or_false] at hmem
  rcases hmem with rfl | rfl | rfl <;> (intro m; cases m <;> rfl)

theorem closes_of_finish {t : Token} (h : t.kind = .finish) : Closes t := by
  obtain ⟨kind, text, line, column⟩ := t
  obtain rfl := h
  intro m
  cases m <;> rfl

/-- An end of an operand in a looser place is one in a tighter place, too. -/
theorem ends_mono {level tighter : Precedence} {last : Bool} {t : Token} (h : level.Ends last t)
    (hreach : level.reach ≤ tighter.reach) : tighter.Ends last t := by
  intro m hm
  refine h m ?_
  cases last
  · simp only [Bool.false_eq_true, if_false] at hm ⊢
    omega
  · exact hm

theorem ends_of_mark {t : Token} {text : String} {level : Precedence} (h : t.Is .mark text)
    (hgoesOn : ∀ m ∈ Precedence.all, level.reach < m.rank → m.goesOn ⟨.mark, text, 0, 0⟩ = false) :
    level.Ends false t := by
  obtain ⟨kind, text', line, column⟩ := t
  obtain ⟨rfl, rfl⟩ := h
  intro m hm
  have := hgoesOn m m.mem_all hm
  cases m <;> exact this

theorem ends_of_word {t : Token} {word : String} {level : Precedence} (h : t.Is .name word)
    (hgoesOn : ∀ m ∈ Precedence.all, level.reach < m.rank → m.goesOn ⟨.name, word, 0, 0⟩ = false) :
    level.Ends false t := by
  obtain ⟨kind, text', line, column⟩ := t
  obtain ⟨rfl, rfl⟩ := h
  intro m hm
  have := hgoesOn m m.mem_all hm
  cases m <;> exact this

/-- No name, no label and no parenthesis stands behind an expression. -/
theorem plain_of_ends {level : Precedence} {last : Bool} {t : Token} (h : level.Ends last t) :
    isFreeName t = false ∧ t.kind ≠ .label ∧ isMark ["("] t = false ∧ isMark ["%"] t = false := by
  have hgoesOn := h .primary (by cases last <;> cases level <;> decide)
  simp only [Precedence.goesOn, Bool.or_eq_false_iff, beq_eq_false_iff_ne] at hgoesOn
  obtain ⟨⟨⟨hname, hlabel⟩, -⟩, hmark⟩ := hgoesOn
  exact ⟨hname, hlabel, not_isMark_of_subset hmark (by decide), not_isMark_of_subset hmark (by decide)⟩

/-- A range begins behind an operand. -/
theorem ends_of_range {make : Node → Node → Node} {marks : List Token} (h : WritesRange make marks) :
    ∃ t more, marks = t :: more ∧ Precedence.unary.Ends false t := by
  cases h with
  | upTo h | against h => exact ⟨_, _, rfl, ends_of_word h (by decide)⟩
  | dots h => exact ⟨_, _, rfl, ends_of_mark h (by decide)⟩
  | spread h =>
    rcases h with h | h
    · exact ⟨_, _, rfl, ends_of_mark h (by decide)⟩
    · exact ⟨_, _, rfl, ends_of_mark h (by decide)⟩
  | outOf h => exact ⟨_, _, rfl, ends_of_word h (by decide)⟩

theorem ends_of_hat {t : Token} (h : isMark ["^", "**"] t = true) :
    Precedence.twiddled.Ends false t ∧ Precedence.twiddled.goesOn t = false := by
  rw [isMark, Bool.and_eq_true, beq_iff_eq, List.contains_iff_mem] at h
  simp only [List.mem_cons, List.not_mem_nil, or_false] at h
  obtain ⟨hkind, htext | htext⟩ := h
  · have his : t.Is .mark "^" := ⟨hkind, htext⟩
    exact ⟨ends_of_mark his (by decide), not_isMark_of_is his (by decide)⟩
  · have his : t.Is .mark "**" := ⟨hkind, htext⟩
    exact ⟨ends_of_mark his (by decide), not_isMark_of_is his (by decide)⟩

theorem WritesTwiddle.wave {n : Node} {tokens : List Token} (h : WritesTwiddle n tokens) :
    ∃ wave number mark, tokens = [wave, number, mark] ∧ wave.Is .mark "~" ∧
      isTwiddle wave number mark = true ∧ number.kind ≠ .finish ∧ mark.kind ≠ .finish := by
  cases h with
  | percent hwave hnumber hmark =>
    refine ⟨_, _, _, rfl, hwave, ?_, by rw [hnumber]; decide, by rw [hmark.1]; decide⟩
    rw [isTwiddle, isMark_of_is hwave List.mem_cons_self, hnumber,
      isMark_of_is hmark List.mem_cons_self]
    rfl
  | decibel hwave hnumber hmark =>
    rename_i wave number mark
    have hkind : mark.kind = .name := hmark.elim (·.1) (·.1)
    refine ⟨_, _, _, rfl, hwave, ?_, by rw [hnumber]; decide, by rw [hkind]; decide⟩
    have hword : (isWord "dB" mark || isWord "db" mark) = true := by
      rcases hmark with h | h
      · rw [isWord_of_is h, Bool.true_or]
      · rw [isWord_of_is h, Bool.or_true]
    rw [isTwiddle, isMark_of_is hwave List.mem_cons_self, hnumber, Bool.or_assoc, hword, Bool.or_true]
    rfl

/-- Is the form an expression of a level tighter than that of signs? -/
def Form.isTight : Form → Bool
  | node level _ _ => decide (Precedence.unary.rank < level.rank)
  | arguments _ | pairs _ _ => false

/-- What a writing begins with: never a closing bracket, and no sign if it is a tight one. -/
def Begins (tight : Bool) (tokens : List Token) : Prop :=
  ∃ t more, tokens = t :: more ∧ isMark [")", "\x7d"] t = false ∧
    (tight = true → isMark ["-", "+"] t = false)

theorem Begins.append {tight : Bool} {tokens : List Token} (h : Begins tight tokens)
    (more : List Token) : Begins tight (tokens ++ more) := by
  obtain ⟨t, rest, rfl, ht⟩ := h
  exact ⟨t, rest ++ more, rfl, ht⟩

theorem Begins.loosen {tight tight' : Bool} {tokens : List Token} (h : Begins tight tokens)
    (himp : tight' = true → tight = true) : Begins tight' tokens := by
  obtain ⟨t, rest, rfl, hclose, hsign⟩ := h
  exact ⟨t, rest, rfl, hclose, fun htight => hsign (himp htight)⟩

theorem begins_of_kind {tight : Bool} {t : Token} (h : t.kind ≠ .mark) (more : List Token) :
    Begins tight (t :: more) :=
  ⟨t, more, rfl, not_isMark_of_kind h _, fun _ => not_isMark_of_kind h _⟩

theorem begins_of_mark {tight : Bool} {t : Token} {text : String} (h : t.Is .mark text)
    (hmem : text ∉ [")", "\x7d", "-", "+"]) (more : List Token) : Begins tight (t :: more) :=
  ⟨t, more, rfl, not_isMark_of_is h fun hclose => hmem (by simp_all),
    fun _ => not_isMark_of_is h fun hsign => hmem (by simp_all)⟩

theorem kind_of_isFreeName {t : Token} (h : isFreeName t = true) : t.kind = .name := by
  rw [isFreeName, Bool.and_eq_true] at h
  exact beq_iff_eq.mp h.1

theorem kind_of_isCallName {t : Token} (h : isCallName t = true) : t.kind = .name := by
  rw [isCallName, Bool.and_eq_true] at h
  exact beq_iff_eq.mp h.1

theorem Writes.begins {form : Form} {tokens : List Token} (h : Writes form tokens) :
    Begins form.isTight tokens := by
  induction h with
  -- a tighter form begins as the looser one may
  | tighter hnext _ ih =>
    refine ih.loosen fun htight => ?_
    rw [Form.isTight, decide_eq_true_eq] at htight ⊢
    rw [Precedence.rank_next hnext]
    exact Nat.lt_succ_of_lt htight
  | enclosed hopening => exact begins_of_mark hopening (by decide) _
  | number ht => exact begins_of_kind (by rw [ht]; decide) _
  | measure hopening => exact begins_of_mark hopening (by decide) _
  | sigFig hwave => exact begins_of_mark hwave (by decide) _
  | sigFigMeasure hopening => exact begins_of_mark hopening (by decide) _
  | twiddle h =>
    obtain ⟨wave, number, mark, rfl, hwave, -⟩ := h.wave
    exact begins_of_mark hwave (by decide) _
  | identifier ht => exact begins_of_kind (by rw [kind_of_isFreeName ht]; decide) _
  | callNone hname => exact begins_of_kind (by rw [kind_of_isCallName hname]; decide) _
  | call hname => exact begins_of_kind (by rw [kind_of_isCallName hname]; decide) _
  | set hopening => exact begins_of_mark hopening (by decide) _
  | binding hword => exact begins_of_kind (by rw [hword.1]; decide) _
  | choice hword => exact begins_of_kind (by rw [hword.1]; decide) _
  | twiddled _ _ ih => exact (ih.loosen fun _ => rfl).append _
  | power _ _ _ ih => exact (ih.loosen fun _ => rfl).append _
  -- only a sign in front of an operand is no beginning of a tight form
  | negate hminus =>
    exact ⟨_, _, rfl, not_isMark_of_is hminus (by decide), fun h => absurd h Bool.false_ne_true⟩
  | range _ _ _ ih => exact (ih.loosen fun h => absurd h Bool.false_ne_true).append _
  | term _ _ _ _ ih => exact (ih.loosen fun h => absurd h Bool.false_ne_true).append _
  | sum _ _ _ _ ih => exact (ih.loosen fun h => absurd h Bool.false_ne_true).append _
  | comparison _ _ _ ih => exact (ih.loosen fun h => absurd h Bool.false_ne_true).append _
  | conversion _ _ _ ih => exact (ih.loosen fun h => absurd h Bool.false_ne_true).append _
  | argument _ ih => exact ih.loosen fun h => absurd h Bool.false_ne_true
  | arguments _ _ _ ih => exact (ih.loosen fun h => absurd h Bool.false_ne_true).append _
  | pair _ _ _ ih => exact (ih.loosen fun h => absurd h Bool.false_ne_true).append _
  | pairs _ _ _ _ _ ih => exact (ih.loosen fun h => absurd h Bool.false_ne_true).append _

/-! ## Primaries -/

section Primaries

variable {limit : Nat} {tokens rest : List Token}

theorem run_atTwiddle (t u v : Token) (rest : List Token) :
    atTwiddle.run (t :: u :: v :: rest) = .ok (isTwiddle t u v, t :: u :: v :: rest) :=
  rfl

theorem run_twiddle {n : Node} (h : WritesTwiddle n tokens) (rest : List Token) :
    atTwiddle.run (tokens ++ rest) = .ok (true, tokens ++ rest) ∧
      twiddle.run (tokens ++ rest) = .ok (n, rest) := by
  obtain ⟨wave, number, mark, rfl, -, htwiddle, hnumber, hmark⟩ := h.wave
  refine ⟨by rw [← htwiddle]; rfl, ?_⟩
  rw [twiddle, List.cons_append, List.cons_append, List.cons_append, List.nil_append,
    run_bind_of_ok (run_skip _ _), List.drop_succ_cons, List.drop_zero,
    run_bind_of_ok (run_advance hnumber _), run_bind_of_ok (run_advance hmark _)]
  cases h with
  | percent _ _ hpercent => rw [hpercent.2]; rfl
  | decibel _ _ hdecibel => rcases hdecibel with h | h <;> rw [h.2] <;> rfl

/-- A primary that begins with a number. -/
theorem run_primary_number {t : Token} {unit : Option String} (ht : t.kind = .number)
    (hunit : trailingUnit.run tokens = .ok (unit, rest)) :
    (primary (limit + 1)).run (t :: tokens) = .ok (.number (Decimal.ofText t.text) unit, rest) := by
  rw [primary, run_bind_of_ok (run_peek _ _), run_bind_of_ok (run_peek _ _), tokenAt_zero, ht,
    if_pos (by decide), run_bind_of_ok (run_skip _ _), List.drop_succ_cons, List.drop_zero,
    run_bind_of_ok hunit]
  rfl

theorem run_primary_twiddle {n : Node} (h : WritesTwiddle n tokens) (rest : List Token) :
    (primary (limit + 1)).run (tokens ++ rest) = .ok (n, rest) := by
  obtain ⟨hat, hrun⟩ := run_twiddle h rest
  obtain ⟨wave, number, mark, rfl, hwave, -⟩ := h.wave
  rw [primary, run_bind_of_ok (run_peek _ _), run_bind_of_ok (run_peek _ _), List.cons_append,
    tokenAt_zero, hwave.1, if_neg (by decide), if_neg (by decide),
    if_pos (isMark_of_is hwave List.mem_cons_self)]
  rw [List.cons_append] at hat hrun
  rw [run_bind_of_ok hat]
  exact hrun

/-- A primary that begins with a wave and is no twiddle. -/
theorem run_primary_sigFig {wave t next : Token} {unit : Option String} (hwave : wave.Is .mark "~")
    (ht : t.kind = .number) (hnext : isTwiddle wave t next = false)
    (hunit : trailingUnit.run (next :: tokens) = .ok (unit, rest)) :
    (primary (limit + 1)).run (wave :: t :: next :: tokens) = .ok (.sigFig t.text unit, rest) := by
  rw [primary, run_bind_of_ok (run_peek _ _), run_bind_of_ok (run_peek _ _), tokenAt_zero, hwave.1,
    if_neg (by decide), if_neg (by decide), if_pos (isMark_of_is hwave List.mem_cons_self),
    run_bind_of_ok (run_atTwiddle _ _ _ _), hnext]
  simp only [Bool.false_eq_true, if_false]
  rw [run_bind_of_ok (run_skip _ _), List.drop_succ_cons, List.drop_zero, run_bind_of_ok (run_peek _ _),
    tokenAt_zero, ht, if_pos (by decide), run_bind_of_ok (run_skip _ _), List.drop_succ_cons,
    List.drop_zero, run_bind_of_ok hunit]
  rfl

/-- A primary in parentheses that no unit follows. -/
theorem run_primary_enclosed {opening closing t : Token} {n : Node} (hopening : opening.Is .mark "(")
    (h : (expression limit).run tokens = .ok (n, closing :: t :: rest)) (hclosing : closing.Is .mark ")")
    (ht : isUnit t = false) :
    (primary (limit + 1)).run (opening :: tokens) = .ok (n, t :: rest) := by
  have hwave : isMark ["~"] opening = false := not_isMark_of_is hopening (by decide)
  rw [primary, run_bind_of_ok (run_peek _ _), run_bind_of_ok (run_peek _ _), tokenAt_zero, hopening.1,
    if_neg (by decide), if_neg (by decide), hwave, if_neg (by decide),
    if_pos (isMark_of_is hopening List.mem_cons_self), run_bind_of_ok (run_skip _ _),
    List.drop_succ_cons, List.drop_zero, run_bind_of_ok h, run_bind_of_ok (run_expectMark hclosing _),
    run_bind_of_ok (run_peek _ _), tokenAt_zero, ht]
  rfl

theorem run_primary_set {opening closing : Token} {values weights : List Node} {unit : Option String}
    {after : List Token} (hopening : opening.Is .mark "\x7b")
    (h : (pairs limit).run tokens = .ok ((values, weights), closing :: after))
    (hclosing : closing.Is .mark "\x7d") (hunit : trailingUnit.run after = .ok (unit, rest)) :
    (primary (limit + 1)).run (opening :: tokens) = .ok (.weightedSet values weights unit, rest) := by
  have hwave : isMark ["~"] opening = false := not_isMark_of_is hopening (by decide)
  have hround : isMark ["("] opening = false := not_isMark_of_is hopening (by decide)
  rw [primary, run_bind_of_ok (run_peek _ _), run_bind_of_ok (run_peek _ _), tokenAt_zero, hopening.1,
    if_neg (by decide), if_neg (by decide), hwave, if_neg (by decide), hround, if_neg (by decide),
    if_pos (isMark_of_is hopening List.mem_cons_self), run_bind_of_ok (run_skip _ _),
    List.drop_succ_cons, List.drop_zero, run_bind_of_ok h]
  simp only
  rw [run_bind_of_ok (run_expectMark hclosing _), run_bind_of_ok hunit]
  rfl

theorem run_primary_binding {word name sign between : Token} {value body : Node}
    {after : List Token} (hword : word.Is .name "let") (hname : isFreeName name = true)
    (hsign : sign.Is .mark "=") (hvalue : (expression limit).run tokens = .ok (value, between :: after))
    (hbetween : between.Is .name "in") (hbody : (expression limit).run after = .ok (body, rest)) :
    (primary (limit + 1)).run (word :: name :: sign :: tokens) =
      .ok (.letBinding name.text value body, rest) := by
  have hmark : ∀ marks, isMark marks word = false := not_isMark_of_kind (by rw [hword.1]; decide)
  rw [primary, run_bind_of_ok (run_peek _ _), run_bind_of_ok (run_peek _ _), tokenAt_zero, hmark, hmark,
    hmark, hword.1, hword.2]
  simp only [beq_self_eq_true, if_true]
  rw [if_neg (by decide), if_neg (by decide), if_neg (by decide), if_neg (by decide), if_neg (by decide),
    run_bind_of_ok (run_skip _ _), List.drop_succ_cons, List.drop_zero,
    run_bind_of_ok (run_expectName hname _), run_bind_of_ok (run_expectMark hsign _),
    run_bind_of_ok hvalue, run_bind_of_ok (run_expectWord hbetween _), run_bind_of_ok hbody]
  rfl

theorem run_primary_choice {word first second : Token} {condition yes no : Node}
    {after later : List Token} (hword : word.Is .name "if")
    (hcondition : (expression limit).run tokens = .ok (condition, first :: after))
    (hfirst : first.Is .name "then") (hyes : (expression limit).run after = .ok (yes, second :: later))
    (hsecond : second.Is .name "else") (hno : (expression limit).run later = .ok (no, rest)) :
    (primary (limit + 1)).run (word :: tokens) = .ok (.ifExpression condition yes no, rest) := by
  have hmark : ∀ marks, isMark marks word = false := not_isMark_of_kind (by rw [hword.1]; decide)
  rw [primary, run_bind_of_ok (run_peek _ _), run_bind_of_ok (run_peek _ _), tokenAt_zero, hmark, hmark,
    hmark, hword.1, hword.2]
  simp only [beq_self_eq_true, if_true]
  rw [if_neg (by decide), if_neg (by decide), if_neg (by decide), if_neg (by decide), if_neg (by decide),
    if_neg (by decide), run_bind_of_ok (run_skip _ _), List.drop_succ_cons, List.drop_zero,
    run_bind_of_ok hcondition, run_bind_of_ok (run_expectWord hfirst _), run_bind_of_ok hyes,
    run_bind_of_ok (run_expectWord hsecond _), run_bind_of_ok hno]
  rfl

/-- A name that is read as itself: no binding, no choice, and no other word with a fixed role. -/
theorem run_primary_name {t next : Token} (ht : t.kind = .name)
    (hplain : (keywords.contains t.text && !(t.text == "to" && isMark ["("] next)) = false) :
    (primary (limit + 1)).run (t :: next :: tokens) =
      (if isMark ["("] next then do
        skip 1
        if ← atMark [")"] then
          skip 1
          return .call t.text []
        else
          let found ← arguments limit
          expectMark ")"
          return .call t.text found
      else return .identifier t.text : TokenReader Node).run (next :: tokens) := by
  have hmark : ∀ marks, isMark marks t = false := not_isMark_of_kind (by rw [ht]; decide)
  -- both words with forms of their own are keywords, and neither is the one that may name a function
  have hlet : (t.text == "let") = false := by
    rw [beq_eq_false_iff_ne]
    intro heq
    rw [heq] at hplain
    exact absurd hplain (by simp [keywords])
  have hif : (t.text == "if") = false := by
    rw [beq_eq_false_iff_ne]
    intro heq
    rw [heq] at hplain
    exact absurd hplain (by simp [keywords])
  rw [primary, run_bind_of_ok (run_peek _ _), run_bind_of_ok (run_peek _ _), tokenAt_zero, tokenAt_one,
    hmark, hmark, hmark, ht, hlet, hif, hplain]
  simp only [beq_self_eq_true, if_true, Bool.false_eq_true, if_false]
  rw [if_neg (by decide), if_neg (by decide), run_bind_of_ok (run_skip _ _), List.drop_succ_cons,
    List.drop_zero]

theorem run_primary_identifier {t next : Token} (ht : isFreeName t = true)
    (hnext : isMark ["("] next = false) :
    (primary (limit + 1)).run (t :: next :: rest) = .ok (.identifier t.text, next :: rest) := by
  have hfree := ht
  rw [isFreeName, Bool.and_eq_true, Bool.not_eq_true'] at hfree
  rw [run_primary_name (kind_of_isFreeName ht) (by rw [hfree.2, Bool.false_and]), hnext]
  rfl

theorem isCallName_plain {name opening : Token} (hname : isCallName name = true)
    (hopening : opening.Is .mark "(") :
    (keywords.contains name.text && !(name.text == "to" && isMark ["("] opening)) = false := by
  rw [isCallName, Bool.and_eq_true, Bool.or_eq_true, Bool.not_eq_true'] at hname
  rw [isMark_of_is hopening List.mem_cons_self, Bool.and_true]
  rcases hname.2 with h | h
  · rw [h, Bool.false_and]
  · rw [h, Bool.not_true, Bool.and_false]

theorem run_primary_callNone {name opening closing : Token} (hname : isCallName name = true)
    (hopening : opening.Is .mark "(") (hclosing : closing.Is .mark ")") :
    (primary (limit + 1)).run (name :: opening :: closing :: rest) = .ok (.call name.text [], rest) := by
  rw [run_primary_name (kind_of_isCallName hname) (isCallName_plain hname hopening),
    if_pos (isMark_of_is hopening List.mem_cons_self), run_bind_of_ok (run_skip _ _),
    List.drop_succ_cons, List.drop_zero, run_bind_of_ok (run_atMark _ _ _),
    if_pos (isMark_of_is hclosing List.mem_cons_self)]
  rfl

theorem run_primary_call {name opening closing : Token} {nodes : List Node}
    (hname : isCallName name = true) (hopening : opening.Is .mark "(") (hbegins : Begins false tokens)
    (h : (arguments limit).run tokens = .ok (nodes, closing :: rest)) (hclosing : closing.Is .mark ")") :
    (primary (limit + 1)).run (name :: opening :: tokens) = .ok (.call name.text nodes, rest) := by
  obtain ⟨first, more, rfl, hfirst, -⟩ := hbegins
  rw [run_primary_name (kind_of_isCallName hname) (isCallName_plain hname hopening),
    if_pos (isMark_of_is hopening List.mem_cons_self), run_bind_of_ok (run_skip _ _),
    List.drop_succ_cons, List.drop_zero, run_bind_of_ok (run_atMark _ _ _),
    not_isMark_of_subset hfirst (by decide), if_neg (by decide), run_bind_of_ok h,
    run_bind_of_ok (run_expectMark hclosing _)]
  rfl

end Primaries

/-! ## Operators -/

section Operators

variable {limit : Nat} {tokens rest : List Token} {left right : Node}

theorem run_twiddled_step {n : Node} (h : WritesTwiddle n tokens) (rest : List Token) :
    (loop .twiddled (limit + 1) left).run (tokens ++ rest) =
      (loop .twiddled limit (.binary .multiply left n)).run rest := by
  obtain ⟨hat, hrun⟩ := run_twiddle h rest
  rw [loop, twiddledRest, run_bind_of_ok hat, if_pos rfl, run_bind_of_ok hrun]

theorem run_power_step {hat : Token} {after : List Token} (hhat : isMark ["^", "**"] hat = true)
    (hleft : (twiddled limit).run tokens = .ok (left, hat :: after))
    (hright : (unary limit).run after = .ok (right, rest)) :
    (power (limit + 1)).run tokens = .ok (.binary .power left right, rest) := by
  rw [power, run_bind_of_ok hleft, run_bind_of_ok (run_atMark _ _ _), if_pos hhat,
    run_bind_of_ok (run_skip _ _), List.drop_succ_cons, List.drop_zero, run_bind_of_ok hright]
  rfl

theorem run_unary_step {minus : Token} (hminus : minus.Is .mark "-")
    (h : (unary limit).run tokens = .ok (left, rest)) :
    (unary (limit + 1)).run (minus :: tokens) = .ok (.unary .negate left, rest) := by
  rw [unary, run_bind_of_ok (run_peek _ _), tokenAt_zero,
    if_pos (isMark_of_is hminus List.mem_cons_self), run_bind_of_ok (run_skip _ _),
    List.drop_succ_cons, List.drop_zero, run_bind_of_ok h]
  rfl

theorem run_range_step {make : Node → Node → Node} {marks after : List Token} {t : Token}
    (hmarks : WritesRange make marks) (hleft : (unary limit).run tokens = .ok (left, marks ++ after))
    (hright : (unary limit).run after = .ok (right, t :: rest)) (hlabel : t.kind ≠ .label)
    (hname : isFreeName t = false) :
    (range (limit + 1)).run tokens = .ok (make left right, t :: rest) := by
  have hunit := run_trailingUnit_none hlabel hname rest
  cases hmarks with
  | upTo h =>
    rw [range, run_bind_of_ok hleft, run_bind_of_ok (run_peek _ _), List.cons_append, tokenAt_zero,
      if_pos (isWord_of_is h), run_bind_of_ok (run_skip _ _), List.drop_succ_cons, List.drop_zero,
      List.nil_append, run_bind_of_ok hright, run_bind_of_ok hunit]
    rfl
  | dots h =>
    rename_i sign
    -- marks are no words, so the first question of the reader is answered by the kind alone
    have hkind : ∀ word, isWord word sign = false := not_isWord_of_kind (by rw [h.1]; decide)
    rw [range, run_bind_of_ok hleft, run_bind_of_ok (run_peek _ _), List.cons_append, tokenAt_zero,
      hkind, if_neg (by decide), if_pos (isMark_of_is h List.mem_cons_self),
      run_bind_of_ok (run_skip _ _), List.drop_succ_cons, List.drop_zero, List.nil_append,
      run_bind_of_ok hright, run_bind_of_ok hunit]
    rfl
  | spread h =>
    rename_i sign
    have hkind : sign.kind = .mark := h.elim (·.1) (·.1)
    have hword : ∀ word, isWord word sign = false := not_isWord_of_kind (by rw [hkind]; decide)
    have hspread : isMark ["+-", "±"] sign = true := by
      rcases h with h | h
      · exact isMark_of_is h (by decide)
      · exact isMark_of_is h (by decide)
    have hdots : isMark [".."] sign = false := by
      rcases h with h | h
      · exact not_isMark_of_is h (by decide)
      · exact not_isMark_of_is h (by decide)
    rw [range, run_bind_of_ok hleft, run_bind_of_ok (run_peek _ _), List.cons_append, tokenAt_zero,
      hword, if_neg (by decide), hdots, if_neg (by decide), if_pos hspread,
      run_bind_of_ok (run_skip _ _), List.drop_succ_cons, List.drop_zero, List.nil_append,
      run_bind_of_ok hright, run_bind_of_ok hunit]
    rfl
  | outOf ht hu =>
    rename_i out word
    -- words are no marks, so the questions for marks are answered by the kind alone
    have hmark : ∀ marks, isMark marks out = false := not_isMark_of_kind (by rw [ht.1]; decide)
    rw [range, run_bind_of_ok hleft, run_bind_of_ok (run_peek _ _), List.cons_append, List.cons_append,
      tokenAt_zero, not_isWord_of_is ht (by decide), if_neg (by decide), hmark, if_neg (by decide), hmark,
      if_neg (by decide), if_pos (isWord_of_is ht), run_bind_of_ok (run_skip _ _), List.drop_succ_cons,
      List.drop_zero, List.nil_append, run_bind_of_ok (run_expectWord hu _), run_bind_of_ok hright]
    rfl
  | against h =>
    rename_i word
    have hmark : ∀ marks, isMark marks word = false := not_isMark_of_kind (by rw [h.1]; decide)
    rw [range, run_bind_of_ok hleft, run_bind_of_ok (run_peek _ _), List.cons_append, tokenAt_zero,
      not_isWord_of_is h (by decide), if_neg (by decide), hmark, if_neg (by decide), hmark,
      if_neg (by decide), not_isWord_of_is h (by decide), if_neg (by decide), if_pos (isWord_of_is h),
      run_bind_of_ok (run_skip _ _), List.drop_succ_cons, List.drop_zero, List.nil_append,
      run_bind_of_ok hright]
    rfl

theorem run_term_step {op : BinaryOperator} {mark : Token} (hop : op = .multiply ∨ op = .divide)
    (hmark : mark.Is .mark op.text) (h : (range limit).run tokens = .ok (right, rest)) :
    (loop .term (limit + 1) left).run (mark :: tokens) =
      (loop .term limit (.binary op left right)).run rest := by
  have his : isMark ["*", "/"] mark = true := by
    rcases hop with rfl | rfl
    · exact isMark_of_is hmark (by decide)
    · exact isMark_of_is hmark (by decide)
  have htext : BinaryOperator.ofText mark.text = op := by
    rw [hmark.2]
    rcases hop with rfl | rfl <;> rfl
  rw [loop, termRest, run_bind_of_ok (run_peek _ _), tokenAt_zero, if_pos his,
    run_bind_of_ok (run_skip _ _), List.drop_succ_cons, List.drop_zero, run_bind_of_ok h, htext]

theorem run_sum_step {op : BinaryOperator} {mark : Token} (hop : op = .add ∨ op = .subtract)
    (hmark : mark.Is .mark op.text) (h : (term limit).run tokens = .ok (right, rest)) :
    (loop .additive (limit + 1) left).run (mark :: tokens) =
      (loop .additive limit (.binary op left right)).run rest := by
  have his : isMark ["+", "-"] mark = true := by
    rcases hop with rfl | rfl
    · exact isMark_of_is hmark (by decide)
    · exact isMark_of_is hmark (by decide)
  have htext : BinaryOperator.ofText mark.text = op := by
    rw [hmark.2]
    rcases hop with rfl | rfl <;> rfl
  rw [loop, additiveRest, run_bind_of_ok (run_peek _ _), tokenAt_zero, if_pos his,
    run_bind_of_ok (run_skip _ _), List.drop_succ_cons, List.drop_zero, run_bind_of_ok h, htext]

theorem run_comparison_step {c : Comparison} {mark : Token} {after : List Token}
    (hmark : mark.Is .mark c.text) (hleft : (additive limit).run tokens = .ok (left, mark :: after))
    (hright : (additive limit).run after = .ok (right, rest)) :
    (comparison (limit + 1)).run tokens = .ok (.binary (.compare c) left right, rest) := by
  have hmem : c.text ∈ comparisonMarks := by cases c <;> decide
  have htext : BinaryOperator.ofText c.text = .compare c := by cases c <;> rfl
  rw [comparison, run_bind_of_ok hleft, run_bind_of_ok (run_peek _ _), tokenAt_zero,
    if_pos (isMark_of_is hmark hmem), run_bind_of_ok (run_skip _ _), List.drop_succ_cons, List.drop_zero,
    run_bind_of_ok hright, hmark.2, htext]
  rfl

/-- The words of a target end where no reader but that of conversions goes on. -/
theorem run_targetWords {t : Token}
    (ht : ∀ m : Precedence, Precedence.expression.reach < m.rank → m.goesOn t = false) (limit : Nat)
    (words : List String) : (targetWords limit words 0).run (t :: rest) = .ok (words, t :: rest) := by
  have hprimary := ht .primary (by decide)
  simp only [Precedence.goesOn, Bool.or_eq_false_iff] at hprimary
  obtain ⟨⟨⟨hname, hlabel⟩, hnumber⟩, hopening⟩ := hprimary
  have hterm := ht .term (by decide)
  have hpower := ht .power (by decide)
  have hsum := ht .additive (by decide)
  simp only [Precedence.goesOn] at hterm hpower hsum
  have hmarks : isMark ["/", "*", "^", "**"] t = false := by
    rw [← Bool.not_eq_true] at hterm hpower ⊢
    rw [isMark, Bool.and_eq_true, List.contains_iff_mem] at hterm hpower ⊢
    simp only [List.mem_cons, List.not_mem_nil, or_false] at hterm hpower ⊢
    rintro ⟨hkind, h | h | h | h⟩
    · exact hterm ⟨hkind, .inr h⟩
    · exact hterm ⟨hkind, .inl h⟩
    · exact hpower ⟨hkind, .inl h⟩
    · exact hpower ⟨hkind, .inr h⟩
  have hminus : isMark ["-"] t = false := not_isMark_of_subset hsum (by decide)
  have hround : isMark ["("] t = false := not_isMark_of_subset hopening (by decide)
  cases limit with
  | zero => rfl
  | succ limit =>
    rw [targetWords, run_bind_of_ok (run_peek _ _), tokenAt_zero, hname, hlabel, hnumber, hmarks, hminus,
      hround]
    simp only [Bool.false_and, Bool.or_false, Bool.false_eq_true, if_false, Nat.lt_irrefl, decide_false,
      Bool.and_false]
    rfl

/-- The target of a conversion is a single word where nothing goes on with it. -/
theorem run_conversionTarget {target t : Token} (htarget : isFreeName target = true ∨ target.kind = .label)
    (ht : ∀ m : Precedence, Precedence.expression.reach < m.rank → m.goesOn t = false) :
    conversionTarget.run (target :: t :: rest) = .ok (target.text, t :: rest) := by
  rw [conversionTarget, run_bind_of_ok (run_atWord _ _ _)]
  rcases hbase : isWord "SI" target with _ | _
  · have hfirst : (isFreeName target || target.kind == .label) = true := by
      rcases htarget with h | h
      · rw [h, Bool.true_or]
      · rw [h]
        exact Bool.or_true _
    have hwords : (targetWords (target :: t :: rest).length [] 0).run (target :: t :: rest) =
        .ok ([target.text], t :: rest) := by
      rw [List.length_cons, targetWords, run_bind_of_ok (run_peek _ _), tokenAt_zero, hfirst, Bool.true_or,
        Bool.true_or, Bool.true_or, if_pos rfl, run_bind_of_ok (run_skip _ _), List.drop_succ_cons,
        List.drop_zero]
      exact run_targetWords ht _ _
    simp only [Bool.false_eq_true, if_false]
    rw [run_bind_of_ok (run_get _), run_bind_of_ok hwords]
    rfl
  · rw [isWord, Bool.and_eq_true, beq_iff_eq, beq_iff_eq] at hbase
    rw [if_pos rfl, run_bind_of_ok (run_skip _ _), hbase.2]
    rfl

theorem run_conversion_step {sign target t : Token} (hsign : sign.Is .mark "->" ∨ sign.Is .name "as")
    (htarget : isFreeName target = true ∨ target.kind = .label)
    (ht : ∀ m : Precedence, Precedence.expression.reach < m.rank → m.goesOn t = false) :
    (loop .expression (limit + 1) left).run (sign :: target :: t :: rest) =
      (loop .expression limit (.conversion left target.text)).run (t :: rest) := by
  have his : (isMark ["->"] sign || isWord "as" sign) = true := by
    rcases hsign with h | h
    · rw [isMark_of_is h List.mem_cons_self, Bool.true_or]
    · rw [isWord_of_is h, Bool.or_true]
  rw [loop, conversions, run_bind_of_ok (run_atMark _ _ _), run_bind_of_ok (run_atWord _ _ _), his,
    if_pos rfl, run_bind_of_ok (run_skip _ _), List.drop_succ_cons, List.drop_zero,
    run_bind_of_ok (run_conversionTarget htarget ht)]

end Operators

/-! ## Lists -/

section Lists

variable {limit : Nat} {tokens rest : List Token} {n : Node} {t : Token}

theorem run_arguments_last (h : (expression limit).run tokens = .ok (n, t :: rest))
    (ht : isMark [","] t = false) : (arguments (limit + 1)).run tokens = .ok ([n], t :: rest) := by
  rw [arguments, run_bind_of_ok h, run_bind_of_ok (run_atMark _ _ _), ht]
  rfl

theorem run_arguments_step {nodes : List Node} {after : List Token}
    (h : (expression limit).run tokens = .ok (n, t :: after)) (ht : t.Is .mark ",")
    (hrest : (arguments limit).run after = .ok (nodes, rest)) :
    (arguments (limit + 1)).run tokens = .ok (n :: nodes, rest) := by
  rw [arguments, run_bind_of_ok h, run_bind_of_ok (run_atMark _ _ _),
    if_pos (isMark_of_is ht List.mem_cons_self), run_bind_of_ok (run_skip _ _), List.drop_succ_cons,
    List.drop_zero, run_bind_of_ok hrest]
  rfl

theorem run_pairs_last {weight : Node} {colon : Token} {after : List Token}
    (h : (additive limit).run tokens = .ok (n, colon :: after)) (hcolon : colon.Is .mark ":")
    (hweight : (additive limit).run after = .ok (weight, t :: rest)) (ht : isMark [","] t = false) :
    (pairs (limit + 1)).run tokens = .ok (([n], [weight]), t :: rest) := by
  rw [pairs, run_bind_of_ok h, run_bind_of_ok (run_expectMark hcolon _), run_bind_of_ok hweight,
    run_bind_of_ok (run_atMark _ _ _), ht]
  rfl

/-- A comma goes on with more pairs where no closing brace stands behind it. -/
theorem run_pairs_step {weight : Node} {values weights : List Node} {colon comma : Token}
    {after later : List Token} (h : (additive limit).run tokens = .ok (n, colon :: after))
    (hcolon : colon.Is .mark ":") (hweight : (additive limit).run after = .ok (weight, comma :: t :: later))
    (hcomma : comma.Is .mark ",") (ht : isMark ["\x7d"] t = false)
    (hrest : (pairs limit).run (t :: later) = .ok ((values, weights), rest)) :
    (pairs (limit + 1)).run tokens = .ok ((n :: values, weight :: weights), rest) := by
  rw [pairs, run_bind_of_ok h, run_bind_of_ok (run_expectMark hcolon _), run_bind_of_ok hweight,
    run_bind_of_ok (run_atMark _ _ _), if_pos (isMark_of_is hcomma List.mem_cons_self),
    run_bind_of_ok (run_skip _ _), List.drop_succ_cons, List.drop_zero,
    run_bind_of_ok (run_atMark _ _ _), ht, if_neg (by decide), run_bind_of_ok hrest]
  rfl

end Lists

/-! ## Whole writings -/

/-- What a writing is read as. An expression is read by the reader of its level, up to the loop that
would take more of that level in; lists are read up to the bracket that closes them. Twelve steps of the
limit are enough for a token: nine levels down to it, a step of a loop, and a step of a list. -/
def Reads : Form → List Token → Prop
  | .node level last n, tokens => ∀ limit t rest,
      12 * (tokens ++ t :: rest).length + (12 - level.rank) ≤ limit → level.Ends last t →
      ∃ left, 12 * (t :: rest).length + (12 - level.rank) ≤ left ∧
        (reader level limit).run (tokens ++ t :: rest) = (loop level left n).run (t :: rest)
  | .arguments nodes, tokens => ∀ limit t rest, 12 * (tokens ++ t :: rest).length + 12 ≤ limit →
      t.Is .mark ")" → (arguments limit).run (tokens ++ t :: rest) = .ok (nodes, t :: rest)
  | .pairs values weights, tokens => ∀ limit t rest, 12 * (tokens ++ t :: rest).length + 12 ≤ limit →
      t.Is .mark "\x7d" → (pairs limit).run (tokens ++ t :: rest) = .ok ((values, weights), t :: rest)

/-- An expression is read to its end where its own level does not go on either. -/
theorem Reads.ends {level : Precedence} {last : Bool} {n : Node} {tokens : List Token}
    (h : Reads (.node level last n) tokens) {limit : Nat} {t : Token} (rest : List Token)
    (hlimit : 12 * (tokens ++ t :: rest).length + (12 - level.rank) ≤ limit) (hends : level.Ends last t)
    (hover : level.goesOn t = false) :
    (reader level limit).run (tokens ++ t :: rest) = .ok (n, t :: rest) := by
  obtain ⟨left, hleft, hrun⟩ := h limit t rest hlimit hends
  rw [List.length_cons] at hleft
  obtain ⟨left, rfl⟩ := Nat.exists_eq_succ_of_ne_zero (n := left) (by omega)
  exact hrun.trans (run_loop hover left n rest)

/-- In front of a bracket, a separator or a word that closes it an expression is over. -/
theorem Reads.closes {level : Precedence} {last : Bool} {n : Node} {tokens : List Token}
    (h : Reads (.node level last n) tokens) {limit : Nat} {t : Token} (rest : List Token)
    (hlimit : 12 * (tokens ++ t :: rest).length + (12 - level.rank) ≤ limit) (ht : Closes t) :
    (reader level limit).run (tokens ++ t :: rest) = .ok (n, t :: rest) :=
  h.ends rest hlimit (ht.ends level last) (ht level)

/-- From one level to the next looser one in front of a closing token. -/
theorem run_closed {level next : Precedence} (hnext : level.next? = some next) {limit : Nat} {n : Node}
    {tokens rest : List Token} {t : Token}
    (h : (reader next (limit + 1)).run tokens = .ok (n, t :: rest)) (ht : Closes t)
    (hbegins : Begins true tokens) : (reader level (limit + 2)).run tokens = .ok (n, t :: rest) := by
  obtain ⟨first, more, rfl, -, hsign⟩ := hbegins
  have hsign := hsign rfl
  refine (run_reader hnext h (fun _ => ht level) fun _ => ?_).trans (run_loop (ht level) limit n rest)
  exact ⟨not_isMark_of_subset hsign (by decide), not_isMark_of_subset hsign (by decide)⟩

/-- From a primary to a whole expression in front of a closing token. -/
theorem run_expression_of_primary {limit : Nat} {n : Node} {tokens rest : List Token} {t : Token}
    (h : (primary (limit + 1)).run tokens = .ok (n, t :: rest)) (ht : Closes t)
    (hbegins : Begins true tokens) : (expression (limit + 9)).run tokens = .ok (n, t :: rest) := by
  have htwiddled := run_closed (show Precedence.twiddled.next? = some .primary from rfl) h ht hbegins
  have hpower := run_closed (show Precedence.power.next? = _ from rfl) htwiddled ht hbegins
  have hunary := run_closed (show Precedence.unary.next? = _ from rfl) hpower ht hbegins
  have hrange := run_closed (show Precedence.range.next? = _ from rfl) hunary ht hbegins
  have hterm := run_closed (show Precedence.term.next? = _ from rfl) hrange ht hbegins
  have hadditive := run_closed (show Precedence.additive.next? = _ from rfl) hterm ht hbegins
  have hcomparison := run_closed (show Precedence.comparison.next? = _ from rfl) hadditive ht hbegins
  exact run_closed (show Precedence.expression.next? = _ from rfl) hcomparison ht hbegins

theorem not_isTwiddle_of_mark {wave number mark : Token} (hpercent : isMark ["%"] mark = false)
    (hwords : isWord "dB" mark = false ∧ isWord "db" mark = false) :
    isTwiddle wave number mark = false := by
  rw [isTwiddle, hpercent, hwords.1, hwords.2, Bool.or_false, Bool.or_false, Bool.and_false]

theorem not_isWord_of_not_isFreeName {t : Token} {word : String} (h : isFreeName t = false)
    (hword : keywords.contains word = false) : isWord word t = false := by
  rw [← Bool.not_eq_true]
  intro his
  rw [isWord, Bool.and_eq_true, beq_iff_eq, beq_iff_eq] at his
  rw [isFreeName, his.1, his.2, hword] at h
  exact absurd h (by decide)

/-- An expression of a level without a loop is read as it is. -/
theorem reads_of_run {level : Precedence} (hloop : loop level = fun _ n => pure n) {last : Bool} {n : Node}
    {tokens : List Token} (h : ∀ limit t rest,
      12 * (tokens ++ t :: rest).length + (11 - level.rank) ≤ limit → level.Ends last t →
      (reader level (limit + 1)).run (tokens ++ t :: rest) = .ok (n, t :: rest)) :
    Reads (.node level last n) tokens := by
  intro limit t rest hlimit hends
  have hrank : level.rank ≤ 9 := by cases level <;> decide
  obtain ⟨limit, rfl⟩ := Nat.exists_eq_succ_of_ne_zero (n := limit) (by omega)
  refine ⟨_, Nat.le_refl _, ?_⟩
  rw [hloop, h limit t rest (by omega) hends]
  rfl

/-- Behind an expression its own level goes on, with one step of the loop. -/
theorem Reads.grow {level : Precedence} {n grown : Node} {tokens : List Token}
    (h : Reads (.node level false n) tokens) {limit : Nat} {sign t : Token} {more rest : List Token}
    (hlimit : 12 * (tokens ++ sign :: more).length + (12 - level.rank) ≤ limit)
    (hsign : level.Ends false sign) (hshorter : rest.length < more.length)
    (hstep : ∀ left, 12 * more.length + (12 - level.rank) ≤ left →
      (loop level (left + 1) n).run (sign :: more) = (loop level left grown).run (t :: rest)) :
    ∃ left, 12 * (t :: rest).length + (12 - level.rank) ≤ left ∧
      (reader level limit).run (tokens ++ sign :: more) = (loop level left grown).run (t :: rest) := by
  obtain ⟨left, hleft, hrun⟩ := h limit sign more hlimit hsign
  rw [List.length_cons] at hleft
  obtain ⟨left, rfl⟩ := Nat.exists_eq_succ_of_ne_zero (n := left) (by omega)
  exact ⟨left, by rw [List.length_cons]; omega, hrun.trans (hstep left (by omega))⟩

/-- An expression of the next tighter level is one of this level. -/
theorem reads_tighter {level next : Precedence} (hnext : level.next? = some next) {last : Bool} {n : Node}
    {tokens : List Token} (h : Reads (.node next last n) tokens)
    (hbegins : Begins (decide (7 ≤ next.rank)) tokens) : Reads (.node level last n) tokens := by
  intro limit t rest hlimit hends
  obtain ⟨hreach, hlt⟩ := Precedence.reach_next hnext
  have hrank := Precedence.rank_next hnext
  have hnine : next.rank ≤ 9 := by cases next <;> decide
  obtain ⟨limit, rfl⟩ := Nat.exists_eq_succ_of_ne_zero (n := limit) (by omega)
  have hgoesOn : ∀ m : Precedence, level.reach < m.rank → m.goesOn t = false := fun m hm =>
    hends m (by cases last <;> simp <;> omega)
  have hrun := h.ends rest (show _ ≤ limit by omega) (ends_mono hends hreach) (hgoesOn next hlt)
  refine ⟨limit, ?_, run_reader hnext hrun (hgoesOn level) ?_⟩
  · obtain ⟨first, more, rfl, -⟩ := hbegins
    simp only [List.length_append, List.length_cons] at hlimit ⊢
    omega
  · rintro rfl
    cases hnext
    obtain ⟨first, more, rfl, -, hsign⟩ := hbegins
    have hsign := hsign rfl
    exact ⟨not_isMark_of_subset hsign (by decide), not_isMark_of_subset hsign (by decide)⟩

/-- What is read whole between parentheses is a primary. -/
theorem reads_enclosed {last : Bool} {n : Node} {opening closing : Token} {tokens : List Token}
    (hopening : opening.Is .mark "(") (hclosing : closing.Is .mark ")")
    (h : ∀ limit rest, 12 * (tokens ++ closing :: rest).length + 11 ≤ limit →
      (expression limit).run (tokens ++ closing :: rest) = .ok (n, closing :: rest)) :
    Reads (.node .primary last n) (opening :: (tokens ++ [closing])) := by
  refine reads_of_run rfl fun limit t rest hlimit hends => ?_
  obtain ⟨hname, hlabel, -, -⟩ := plain_of_ends hends
  simp only [List.append_assoc, List.cons_append, List.nil_append, List.length_cons,
    List.length_append, Precedence.rank] at hlimit ⊢
  refine run_primary_enclosed hopening (h _ _ ?_) hclosing (not_isUnit hlabel hname)
  simp only [List.length_append, List.length_cons]
  omega

/-- A primary between parentheses is one again. -/
theorem reads_enclosed_primary {last : Bool} {n : Node} {opening closing : Token} {tokens : List Token}
    (hopening : opening.Is .mark "(") (hclosing : closing.Is .mark ")") (hbegins : Begins true tokens)
    (h : ∀ limit rest, (primary (limit + 1)).run (tokens ++ closing :: rest) = .ok (n, closing :: rest)) :
    Reads (.node .primary last n) (opening :: (tokens ++ [closing])) := by
  refine reads_enclosed hopening hclosing fun limit rest hlimit => ?_
  obtain ⟨limit, rfl⟩ := Nat.exists_eq_add_of_le (show 9 ≤ limit by omega)
  rw [Nat.add_comm 9]
  exact run_expression_of_primary (h limit rest) (closes_of_mark hclosing (by decide))
    (hbegins.append _)

/-- An operator that associates to the left takes in one more operand, of the next tighter level. -/
theorem reads_leftOperator {level next : Precedence} (hnext : level.next? = some next) {last : Bool}
    {left right joined : Node} {sign : Token} {tokens rest : List Token}
    (hleft : Reads (.node level false left) tokens) (hright : Reads (.node next last right) rest)
    (hsign : level.Ends false sign)
    (hstep : ∀ {limit : Nat} {operand after : List Token},
      (reader next limit).run operand = .ok (right, after) →
      (loop level (limit + 1) left).run (sign :: operand) = (loop level limit joined).run after) :
    Reads (.node level last joined) (tokens ++ sign :: rest) := by
  intro limit t later hlimit hends
  obtain ⟨hreach, hlt⟩ := Precedence.reach_next hnext
  have hrank := Precedence.rank_next hnext
  rw [List.append_assoc, List.cons_append] at hlimit ⊢
  have hshorter : later.length < (rest ++ t :: later).length := by
    simp only [List.length_append, List.length_cons]
    omega
  refine hleft.grow hlimit hsign hshorter fun left hbound => hstep ?_
  exact hright.ends later (by omega) (ends_mono hends hreach)
    (hends next (by cases last <;> simp <;> omega))

/-! ## The rules of the grammar

Between parentheses and in lists the operands are read anew, each with the limit that is left: what stands
in front of it has taken at least one token, which is worth twelve steps. -/

section Rules

variable {last bare bare' : Bool} {n value weight left right : Node} {tokens middle after : List Token}

theorem reads_sigFigMeasure {opening wave literal first closing : Token} {unit : String}
    (hopening : opening.Is .mark "(") (hwave : wave.Is .mark "~") (ht : literal.kind = .number)
    (hunit : WritesUnit unit (first :: tokens))
    (hfirst : isWord "dB" first = false ∧ isWord "db" first = false) (hclosing : closing.Is .mark ")") :
    Reads (.node .primary last (.sigFig literal.text (some unit)))
      (opening :: wave :: literal :: first :: (tokens ++ [closing])) := by
  have hunitWord : isUnit first = true := by
    cases hunit with
    | mk hunit => exact hunit
  have hkind : first.kind ≠ .mark := by
    rcases kind_of_isUnit hunitWord with h | h <;> rw [h] <;> decide
  -- the unit is neither a percent sign nor a word for decibels
  have hplain : ∀ wave number, isTwiddle wave number first = false := fun _ _ =>
    not_isTwiddle_of_mark (not_isMark_of_kind hkind _) hfirst
  rw [← List.cons_append, ← List.cons_append, ← List.cons_append]
  exact reads_enclosed_primary hopening hclosing (begins_of_mark hwave (by decide) _)
    fun limit rest => run_primary_sigFig hwave ht (hplain _ _) (run_trailingUnit hunit hclosing rest)

theorem reads_call {name opening closing : Token} {nodes : List Node} (hname : isCallName name = true)
    (hopening : opening.Is .mark "(") (hbegins : Begins false tokens) (h : Reads (.arguments nodes) tokens)
    (hclosing : closing.Is .mark ")") :
    Reads (.node .primary last (.call name.text nodes)) (name :: opening :: (tokens ++ [closing])) := by
  refine reads_of_run rfl fun limit t rest hlimit _ => ?_
  simp only [List.append_assoc, List.cons_append, List.nil_append, List.length_cons,
    List.length_append, Precedence.rank] at hlimit ⊢
  refine run_primary_call hname hopening (hbegins.append _) (h limit _ _ ?_ hclosing) hclosing
  simp
  omega

theorem reads_set {opening closing : Token} {values weights : List Node} (hopening : opening.Is .mark "\x7b")
    (h : Reads (.pairs values weights) tokens) (hclosing : closing.Is .mark "\x7d") :
    Reads (.node .primary last (.weightedSet values weights none)) (opening :: (tokens ++ [closing])) := by
  refine reads_of_run rfl fun limit t rest hlimit hends => ?_
  obtain ⟨hname, hlabel, -, -⟩ := plain_of_ends hends
  simp only [List.append_assoc, List.cons_append, List.nil_append, List.length_cons,
    List.length_append, Precedence.rank] at hlimit ⊢
  refine run_primary_set hopening (h limit _ _ ?_ hclosing) hclosing (run_trailingUnit_none hlabel hname rest)
  simp
  omega

/-- A binding takes in all that follows, so it ends where an expression does. -/
theorem reads_binding {word name sign between : Token} {body : Node} (hword : word.Is .name "let")
    (hname : isFreeName name = true) (hsign : sign.Is .mark "=")
    (hvalue : Reads (.node .expression bare value) tokens) (hbetween : between.Is .name "in")
    (hbody : Reads (.node .expression true body) after) :
    Reads (.node .primary true (.letBinding name.text value body))
      (word :: name :: sign :: (tokens ++ between :: after)) := by
  refine reads_of_run rfl fun limit t rest hlimit hends => ?_
  simp only [List.append_assoc, List.cons_append, List.length_cons, List.length_append,
    Precedence.rank] at hlimit ⊢
  have hbodyRead := hbody.closes rest (show _ ≤ limit by simp [Precedence.rank]; omega) fun m =>
    hends m (by cases m <;> decide)
  refine run_primary_binding hword hname hsign ?_ hbetween hbodyRead
  exact hvalue.closes _ (by simp [Precedence.rank]; omega) (closes_of_word hbetween (by decide))

/-- A choice takes in all that follows, too. -/
theorem reads_choice {word first second : Token} {condition yes no : Node} (hword : word.Is .name "if")
    (hcondition : Reads (.node .expression bare condition) tokens) (hfirst : first.Is .name "then")
    (hyes : Reads (.node .expression bare' yes) middle) (hsecond : second.Is .name "else")
    (hno : Reads (.node .expression true no) after) :
    Reads (.node .primary true (.ifExpression condition yes no))
      (word :: (tokens ++ first :: (middle ++ second :: after))) := by
  refine reads_of_run rfl fun limit t rest hlimit hends => ?_
  simp only [List.append_assoc, List.cons_append, List.length_cons, List.length_append,
    Precedence.rank] at hlimit ⊢
  have hnoRead := hno.closes rest (show _ ≤ limit by simp [Precedence.rank]; omega) fun m =>
    hends m (by cases m <;> decide)
  have hyesRead := hyes.closes (after ++ t :: rest) (show _ ≤ limit by simp [Precedence.rank]; omega)
    (closes_of_word hsecond (by decide))
  refine run_primary_choice hword ?_ hfirst hyesRead hsecond hnoRead
  exact hcondition.closes _ (by simp [Precedence.rank]; omega) (closes_of_word hfirst (by decide))

theorem reads_twiddled {twiddle : Node} (h : Reads (.node .twiddled false n) tokens)
    (htwiddle : WritesTwiddle twiddle after) :
    Reads (.node .twiddled last (.binary .multiply n twiddle)) (tokens ++ after) := by
  intro limit t rest hlimit hends
  obtain ⟨wave, number, mark, rfl, hwave, -⟩ := htwiddle.wave
  rw [List.append_assoc, List.cons_append, List.cons_append, List.cons_append, List.nil_append] at hlimit ⊢
  have hshorter : rest.length < (number :: mark :: t :: rest).length := by
    simp only [List.length_cons]
    omega
  exact h.grow hlimit (ends_of_mark hwave (by decide)) hshorter fun left _ =>
    run_twiddled_step htwiddle (t :: rest)

theorem reads_power {hat : Token} (hbase : Reads (.node .twiddled false left) tokens)
    (hhat : isMark ["^", "**"] hat = true) (hexponent : Reads (.node .unary last right) after) :
    Reads (.node .power last (.binary .power left right)) (tokens ++ hat :: after) := by
  refine reads_of_run rfl fun limit t rest hlimit hends => ?_
  simp only [List.append_assoc, List.cons_append, List.length_cons, List.length_append,
    Precedence.rank] at hlimit ⊢
  obtain ⟨hhatEnds, hhatOver⟩ := ends_of_hat hhat
  have hexponentRead := hexponent.ends rest (show _ ≤ limit by simp [Precedence.rank]; omega)
    (ends_mono hends (by decide)) rfl
  exact run_power_step hhat (hbase.ends _ (by simp [Precedence.rank]; omega) hhatEnds hhatOver) hexponentRead

theorem reads_negate {minus : Token} (hminus : minus.Is .mark "-") (h : Reads (.node .unary last n) tokens) :
    Reads (.node .unary last (.unary .negate n)) (minus :: tokens) := by
  refine reads_of_run rfl fun limit t rest hlimit hends => ?_
  simp only [List.cons_append, List.length_cons, List.length_append, Precedence.rank] at hlimit ⊢
  refine run_unary_step hminus (h.ends _ ?_ hends rfl)
  simp [Precedence.rank]
  omega

theorem reads_range {make : Node → Node → Node} {marks : List Token}
    (hleft : Reads (.node .unary false left) tokens) (hmarks : WritesRange make marks)
    (hright : Reads (.node .unary last right) after) :
    Reads (.node .range last (make left right)) (tokens ++ (marks ++ after)) := by
  refine reads_of_run rfl fun limit t rest hlimit hends => ?_
  obtain ⟨hname, hlabel, -, -⟩ := plain_of_ends hends
  obtain ⟨first, more, hshape, hfirst⟩ := ends_of_range hmarks
  simp only [List.append_assoc, List.length_append, List.length_cons, Precedence.rank] at hlimit ⊢
  have hrightRead := hright.ends rest (show _ ≤ limit by simp [Precedence.rank]; omega)
    (ends_mono hends (by decide)) rfl
  refine run_range_step hmarks ?_ hrightRead hlabel hname
  rw [hshape] at hlimit ⊢
  refine hleft.ends _ ?_ hfirst rfl
  simp [Precedence.rank] at hlimit ⊢
  omega

theorem reads_comparison {c : Comparison} {mark : Token} (hleft : Reads (.node .additive false left) tokens)
    (hmark : mark.Is .mark c.text) (hright : Reads (.node .additive last right) after) :
    Reads (.node .comparison last (.binary (.compare c) left right)) (tokens ++ mark :: after) := by
  refine reads_of_run rfl fun limit t rest hlimit hends => ?_
  simp only [List.append_assoc, List.cons_append, List.length_cons, List.length_append,
    Precedence.rank] at hlimit ⊢
  have hmarkEnds : Precedence.additive.Ends false mark ∧ Precedence.additive.goesOn mark = false := by
    cases c
    all_goals exact ⟨ends_of_mark hmark (by decide), not_isMark_of_is hmark (by decide)⟩
  have hleftRead := hleft.ends (after ++ t :: rest) (show _ ≤ limit by simp [Precedence.rank]; omega)
    hmarkEnds.1 hmarkEnds.2
  refine run_comparison_step hmark hleftRead
    (hright.ends _ ?_ (ends_mono hends (by decide)) (hends .additive (by cases last <;> decide)))
  simp [Precedence.rank]
  omega

theorem reads_conversion {sign target : Token} (h : Reads (.node .expression false n) tokens)
    (hsign : sign.Is .mark "->" ∨ sign.Is .name "as")
    (htarget : isFreeName target = true ∨ target.kind = .label) :
    Reads (.node .expression last (.conversion n target.text)) (tokens ++ [sign, target]) := by
  intro limit t rest hlimit hends
  rw [List.append_assoc, List.cons_append, List.cons_append, List.nil_append] at hlimit ⊢
  have hsignEnds : Precedence.expression.Ends false sign := by
    rcases hsign with h | h
    · exact ends_of_mark h (by decide)
    · exact ends_of_word h (by decide)
  have hgoesOn : ∀ m : Precedence, Precedence.expression.reach < m.rank → m.goesOn t = false :=
    fun m hm => hends m (by cases last <;> simp [Precedence.reach] at hm ⊢ <;> omega)
  have hshorter : rest.length < (target :: t :: rest).length := by
    simp only [List.length_cons]
    omega
  exact h.grow hlimit hsignEnds hshorter fun left _ => run_conversion_step hsign htarget hgoesOn

theorem reads_argument (h : Reads (.node .expression bare n) tokens) : Reads (.arguments [n]) tokens := by
  intro limit t rest hlimit ht
  obtain ⟨limit, rfl⟩ := Nat.exists_eq_succ_of_ne_zero (n := limit) (by omega)
  have hread := h.closes rest (show _ ≤ limit by simp only [Precedence.rank]; omega)
    (closes_of_mark ht (by decide))
  exact run_arguments_last hread (not_isMark_of_is ht (by decide))

theorem reads_arguments {nodes : List Node} {comma : Token} (h : Reads (.node .expression bare n) tokens)
    (hcomma : comma.Is .mark ",") (hrest : Reads (.arguments nodes) after) :
    Reads (.arguments (n :: nodes)) (tokens ++ comma :: after) := by
  intro limit t rest hlimit ht
  obtain ⟨limit, rfl⟩ := Nat.exists_eq_succ_of_ne_zero (n := limit) (by omega)
  simp only [List.append_assoc, List.cons_append, List.length_append, List.length_cons] at hlimit ⊢
  have hlater := hrest limit t rest (by simp; omega) ht
  refine run_arguments_step (h.closes _ ?_ (closes_of_mark hcomma (by decide))) hcomma hlater
  simp [Precedence.rank]
  omega

theorem reads_pair {colon : Token} (hvalue : Reads (.node .additive bare value) tokens)
    (hcolon : colon.Is .mark ":") (hweight : Reads (.node .additive bare' weight) after) :
    Reads (.pairs [value] [weight]) (tokens ++ colon :: after) := by
  intro limit t rest hlimit ht
  obtain ⟨limit, rfl⟩ := Nat.exists_eq_succ_of_ne_zero (n := limit) (by omega)
  simp only [List.append_assoc, List.cons_append, List.length_append, List.length_cons] at hlimit ⊢
  have hweightRead := hweight.closes rest (show _ ≤ limit by simp [Precedence.rank]; omega)
    (closes_of_mark ht (by decide))
  refine run_pairs_last (hvalue.closes _ ?_ (closes_of_mark hcolon (by decide))) hcolon hweightRead
    (not_isMark_of_is ht (by decide))
  simp [Precedence.rank]
  omega

/-- The reader looks behind a comma for a closing brace, and no pair begins with one. -/
theorem reads_pairs {values weights : List Node} {colon comma : Token}
    (hvalue : Reads (.node .additive bare value) tokens) (hcolon : colon.Is .mark ":")
    (hweight : Reads (.node .additive bare' weight) middle) (hcomma : comma.Is .mark ",")
    (hbegins : Begins false after) (hrest : Reads (.pairs values weights) after) :
    Reads (.pairs (value :: values) (weight :: weights))
      (tokens ++ colon :: (middle ++ comma :: after)) := by
  intro limit t rest hlimit ht
  obtain ⟨first, more, rfl, hfirst, -⟩ := hbegins
  obtain ⟨limit, rfl⟩ := Nat.exists_eq_succ_of_ne_zero (n := limit) (by omega)
  simp only [List.append_assoc, List.cons_append, List.length_append, List.length_cons] at hlimit ⊢
  have hlater := hrest limit t rest (by simp; omega) ht
  have hweightRead := hweight.closes (first :: (more ++ t :: rest))
    (show _ ≤ limit by simp [Precedence.rank]; omega) (closes_of_mark hcomma (by decide))
  refine run_pairs_step (hvalue.closes _ ?_ (closes_of_mark hcolon (by decide))) hcolon hweightRead
    hcomma (not_isMark_of_subset hfirst (by decide)) hlater
  simp [Precedence.rank]
  omega

end Rules

/-- **Reading undoes writing**: induction over the writing, one case for each rule of the grammar. -/
theorem reads_of_writes {form : Form} {tokens : List Token} (h : Writes form tokens) :
    Reads form tokens := by
  induction h with
  | tighter hnext h ih => exact reads_tighter hnext ih h.begins
  | enclosed hopening hclosing h ih =>
    exact reads_enclosed hopening hclosing fun limit rest hlimit =>
      ih.closes rest hlimit (closes_of_mark hclosing (by decide))
  | number ht =>
    refine reads_of_run rfl fun limit t rest _ hends => ?_
    obtain ⟨hname, hlabel, -, -⟩ := plain_of_ends hends
    exact run_primary_number ht (run_trailingUnit_none hlabel hname rest)
  | measure hopening ht hunit hclosing =>
    rw [← List.cons_append]
    exact reads_enclosed_primary hopening hclosing (begins_of_kind (by rw [ht]; decide) _)
      fun limit rest => run_primary_number ht (run_trailingUnit hunit hclosing rest)
  | sigFig hwave ht =>
    refine reads_of_run rfl fun limit t rest _ hends => ?_
    obtain ⟨hname, hlabel, -, hpercent⟩ := plain_of_ends hends
    refine run_primary_sigFig hwave ht (not_isTwiddle_of_mark hpercent ?_)
      (run_trailingUnit_none hlabel hname rest)
    exact ⟨not_isWord_of_not_isFreeName hname (by decide), not_isWord_of_not_isFreeName hname (by decide)⟩
  | sigFigMeasure hopening hwave ht hunit hfirst hclosing =>
    exact reads_sigFigMeasure hopening hwave ht hunit hfirst hclosing
  | twiddle h =>
    exact reads_of_run rfl fun limit t rest _ _ => run_primary_twiddle h (t :: rest)
  | identifier ht =>
    refine reads_of_run rfl fun limit t rest _ hends => ?_
    obtain ⟨-, -, hopening, -⟩ := plain_of_ends hends
    exact run_primary_identifier ht hopening
  | callNone hname hopening hclosing =>
    exact reads_of_run rfl fun limit t rest _ _ => run_primary_callNone hname hopening hclosing
  | call hname hopening h hclosing ih => exact reads_call hname hopening h.begins ih hclosing
  | set hopening h hclosing ih => exact reads_set hopening ih hclosing
  | binding hword hname hsign hvalue hbetween hbody ihvalue ihbody =>
    exact reads_binding hword hname hsign ihvalue hbetween ihbody
  | choice hword hcondition hfirst hyes hsecond hno ihcondition ihyes ihno =>
    exact reads_choice hword ihcondition hfirst ihyes hsecond ihno
  | twiddled h htwiddle ih => exact reads_twiddled ih htwiddle
  | power hbase hhat hexponent ihbase ihexponent => exact reads_power ihbase hhat ihexponent
  | negate hminus h ih => exact reads_negate hminus ih
  | range hleft hmarks hright ihleft ihright => exact reads_range ihleft hmarks ihright
  | term hleft hop hmark hright ihleft ihright =>
    refine reads_leftOperator rfl ihleft ihright ?_ (run_term_step hop hmark)
    rcases hop with rfl | rfl
    · exact ends_of_mark hmark (by decide)
    · exact ends_of_mark hmark (by decide)
  | sum hleft hop hmark hright ihleft ihright =>
    refine reads_leftOperator rfl ihleft ihright ?_ (run_sum_step hop hmark)
    rcases hop with rfl | rfl
    · exact ends_of_mark hmark (by decide)
    · exact ends_of_mark hmark (by decide)
  | comparison hleft hmark hright ihleft ihright => exact reads_comparison ihleft hmark ihright
  | conversion h hsign htarget ih => exact reads_conversion ih hsign htarget
  | argument h ih => exact reads_argument ih
  | arguments h hcomma hrest ih ihrest => exact reads_arguments ih hcomma ihrest
  | pair hvalue hcolon hweight ihvalue ihweight => exact reads_pair ihvalue hcolon ihweight
  | pairs hvalue hcolon hweight hcomma hrest ihvalue ihweight ihrest =>
    exact reads_pairs ihvalue hcolon ihweight hcomma hrest.begins ihrest

/-- A writing of an expression is read as a whole up to the end of the tokens. -/
theorem run_wholeExpression {last : Bool} {n : Node} {tokens : List Token} {finish : Token}
    (h : Writes (.node .expression last n) tokens) (hfinish : finish.kind = .finish) :
    wholeExpression.run (tokens ++ [finish]) = .ok (n, [finish]) := by
  rw [wholeExpression, run_bind_of_ok (run_get _)]
  have hlimit : 12 * (tokens ++ [finish]).length + (12 - Precedence.expression.rank) ≤
      limitFor (tokens ++ [finish]) := by
    rw [limitFor, Precedence.rank]
    omega
  exact (reads_of_writes h).closes [] hlimit (closes_of_finish hfinish)

end TokenReader

end Ballpark
