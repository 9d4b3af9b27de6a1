import Ballpark.Proofs.DecimalText
import Ballpark.Proofs.ProgramReading

/-!
# Printing expressions

The expressions that can be printed (`Expression`) carry what their words may be: names without a fixed
role, known units, literals without a sign. Printing puts parentheses where precedence asks for them,
around each literal that has a unit, and around a binding or a choice that does not come last. What is
printed is a writing, so reading it gives the tree back (`Expression.read_back`).
-/

namespace Ballpark

open TokenReader

/-! ## Words -/

/-- A token without its place. -/
structure Lexeme where
  kind : TokenKind
  text : String
  deriving DecidableEq, Repr

/-- A token's sort and text. -/
def Token.lexeme (t : Token) : Lexeme :=
  ⟨t.kind, t.text⟩

namespace Lexeme

/-- An operator. -/
def mark (text : String) : Lexeme :=
  ⟨.mark, text⟩

/-- A name. -/
def name (text : String) : Lexeme :=
  ⟨.name, text⟩

/-- A number. -/
def number (text : String) : Lexeme :=
  ⟨.number, text⟩

end Lexeme

/-- A name without a fixed role. -/
structure FreeName where
  text : String
  free : text ∉ keywords

/-- A name that can be called: one without a fixed role, or `to`. -/
structure CallName where
  text : String
  callable : text ∉ keywords ∨ text = "to"

/-- A word of a unit: the name of a known unit that has no fixed role, or a label. -/
inductive UnitWord where
  | name (word : FreeName) (known : UnitName.isKnown word.text = true)
  | label (text : String)

/-- The text of a unit's word. -/
def UnitWord.lexeme : UnitWord → Lexeme
  | name word _ => .name word.text
  | label text => ⟨.label, text⟩

/-- What a unit can go on with: a power of its last word, or one more word. -/
inductive UnitStep where
  | raised (power : String)
  | lowered (power : String)
  | divided (word : UnitWord)
  | beside (word : UnitWord)

namespace UnitStep

/-- The words of a unit with one step more, the last one first. -/
def extend (words : List String) : UnitStep → List String
  | raised power => raiseLast words power
  | lowered power => raiseLast words ("-" ++ power)
  | divided word => word.lexeme.text :: "/" :: words
  | beside word => word.lexeme.text :: words

/-- The tokens of a step. -/
def lexemes : UnitStep → List Lexeme
  | raised power => [.mark "^", .number power]
  | lowered power => [.mark "^", .mark "-", .number power]
  | divided word => [.mark "/", word.lexeme]
  | beside word => [word.lexeme]

end UnitStep

/-- A unit of known names in normal form. -/
structure UnitPhrase where
  first : UnitWord
  more : List UnitStep

namespace UnitPhrase

/-- The text of a unit in normal form. -/
def text (unit : UnitPhrase) : String :=
  " ".intercalate (unit.more.foldl UnitStep.extend [unit.first.lexeme.text]).reverse

/-- The tokens of a unit. -/
def lexemes (unit : UnitPhrase) : List Lexeme :=
  unit.first.lexeme :: unit.more.flatMap UnitStep.lexemes

end UnitPhrase

/-- A factor known up to some percent or decibels. -/
inductive Twiddle where
  | percent (value : Decimal) (h : value.negative = false)
  | decibel (value : Decimal) (h : value.negative = false)

namespace Twiddle

/-- The tree of a twiddle. -/
def node : Twiddle → Node
  | percent value _ => .percentTwiddle value
  | decibel value _ => .decibelTwiddle value

/-- The tokens of a twiddle. -/
def lexemes : Twiddle → List Lexeme
  | percent value _ => [.mark "~", .number value.written, .mark "%"]
  | decibel value _ => [.mark "~", .number value.written, .name "dB"]

end Twiddle

/-- What can stand between two operands. -/
inductive Connective where
  | add | subtract | multiply | divide | power
  | compare (c : Comparison)
  | range | uniform | normal | outOf | against
  deriving DecidableEq

namespace Connective

/-- The level of two operands with this between them. -/
def level : Connective → Precedence
  | add | subtract => .additive
  | multiply | divide => .term
  | power => .power
  | compare _ => .comparison
  | range | uniform | normal | outOf | against => .range

/-- The level of the operand on the left. -/
def left : Connective → Precedence
  | add | subtract | compare _ => .additive
  | multiply | divide => .term
  | power => .twiddled
  | range | uniform | normal | outOf | against => .unary

/-- The level of the operand on the right. -/
def right : Connective → Precedence
  | add | subtract => .term
  | multiply | divide => .range
  | compare _ => .additive
  | power | range | uniform | normal | outOf | against => .unary

/-- The tree of two operands. -/
def make : Connective → Node → Node → Node
  | add => .binary .add
  | subtract => .binary .subtract
  | multiply => .binary .multiply
  | divide => .binary .divide
  | power => .binary .power
  | compare c => .binary (.compare c)
  | range => (.range · · none)
  | uniform => (.uniformRange · · none)
  | normal => (.normalRange · · none)
  | outOf => .betaOf
  | against => .betaAgainst

/-- The tokens between the operands. -/
def lexemes : Connective → List Lexeme
  | add => [.mark "+"]
  | subtract => [.mark "-"]
  | multiply => [.mark "*"]
  | divide => [.mark "/"]
  | power => [.mark "^"]
  | compare c => [.mark c.text]
  | range => [.name "to"]
  | uniform => [.mark ".."]
  | normal => [.mark "+-"]
  | outOf => [.name "out", .name "of"]
  | against => [.name "against"]

end Connective

/-! ## Expressions -/

mutual

/-- An expression that can be printed. -/
inductive Expression where
  | number (value : Decimal) (h : value.negative = false)
  /-- a literal with a unit -/
  | measure (value : Decimal) (h : value.negative = false) (unit : UnitPhrase)
  | sigFig (literal : String)
  /-- a literal with a unit; one that begins with decibels would make it a twiddle -/
  | sigFigMeasure (literal : String) (unit : UnitPhrase) (h : unit.first.lexeme.text ∉ ["dB", "db"])
  | identifier (name : FreeName)
  | twiddle (factor : Twiddle)
  | call (name : CallName) (arguments : ArgumentList)
  | set (pairs : Pairs)
  | binding (name : FreeName) (value body : Expression)
  | choice (condition yes no : Expression)
  | negate (operand : Expression)
  | joined (op : Connective) (left right : Expression)
  | conversion (operand : Expression) (target : FreeName)

/-- The arguments of a call. -/
inductive ArgumentList where
  | nil
  | cons (first : Expression) (more : ArgumentList)

/-- Values with their weights, at least one. -/
inductive Pairs where
  | single (value weight : Expression)
  | cons (value weight : Expression) (more : Pairs)

end

mutual

/-- The tree of an expression. -/
def Expression.node : Expression → Node
  | .number value _ => .number value none
  | .measure value _ unit => .number value (some unit.text)
  | .sigFig literal => .sigFig literal none
  | .sigFigMeasure literal unit _ => .sigFig literal (some unit.text)
  | .identifier name => .identifier name.text
  | .twiddle factor => factor.node
  | .call name arguments => .call name.text arguments.nodes
  | .set pairs => .weightedSet pairs.values pairs.weights none
  | .binding name value body => .letBinding name.text value.node body.node
  | .choice condition yes no => .ifExpression condition.node yes.node no.node
  | .negate operand => .unary .negate operand.node
  | .joined op left right => op.make left.node right.node
  | .conversion operand target => .conversion operand.node target.text

/-- The trees of arguments. -/
def ArgumentList.nodes : ArgumentList → List Node
  | .nil => []
  | .cons first more => first.node :: more.nodes

/-- The trees of values. -/
def Pairs.values : Pairs → List Node
  | .single value _ => [value.node]
  | .cons value _ more => value.node :: more.values

/-- The trees of weights. -/
def Pairs.weights : Pairs → List Node
  | .single _ weight => [weight.node]
  | .cons _ weight more => weight.node :: more.weights

end

/-! ## Printing -/

/-- Is a level too loose for a place that asks for another one? -/
def Precedence.isLooser (own place : Precedence) : Bool :=
  decide (own.rank < place.rank)

/-- Tokens with parentheses around them, if they are needed. -/
def enclosedIf (needed : Bool) (inside : List Lexeme) : List Lexeme :=
  if needed then .mark "(" :: (inside ++ [.mark ")"]) else inside

/-- Is the expression a twiddle on its own? -/
def Expression.isTwiddle : Expression → Bool
  | .twiddle _ => true
  | _ => false

mutual

/-- The tokens of an expression in a place that asks for a level; `last` tells that nothing which
could be taken in stands behind the place. A product with a twiddle does without its mark where that
would need parentheses. -/
def Expression.write (place : Precedence) (last : Bool) : Expression → List Lexeme
  | .number value _ => [.number value.written]
  | .measure value _ unit => .mark "(" :: .number value.written :: (unit.lexemes ++ [.mark ")"])
  | .sigFig literal => [.mark "~", .number literal]
  | .sigFigMeasure literal unit _ =>
    .mark "(" :: .mark "~" :: .number literal :: (unit.lexemes ++ [.mark ")"])
  | .identifier name => [.name name.text]
  | .twiddle factor => factor.lexemes
  | .call name arguments => .name name.text :: .mark "(" :: (arguments.write ++ [.mark ")"])
  | .set pairs => .mark "\x7b" :: (pairs.write ++ [.mark "\x7d"])
  | .binding name value body =>
    enclosedIf (!last) (.name "let" :: .name name.text :: .mark "=" ::
      (value.write .expression true ++ .name "in" :: body.write .expression true))
  | .choice condition yes no =>
    enclosedIf (!last) (.name "if" :: (condition.write .expression true ++
      .name "then" :: (yes.write .expression true ++ .name "else" :: no.write .expression true)))
  | .negate operand =>
    let outer := Precedence.unary.isLooser place
    enclosedIf outer (.mark "-" :: operand.write .unary (last || outer))
  | .joined op left right =>
    if op = .multiply ∧ right.isTwiddle = true ∧ op.level.isLooser place = true then
      enclosedIf (Precedence.twiddled.isLooser place) (left.write .twiddled false ++ right.write .primary true)
    else
      let outer := op.level.isLooser place
      enclosedIf outer (left.write op.left false ++ (op.lexemes ++ right.write op.right (last || outer)))
  | .conversion operand target =>
    enclosedIf (Precedence.expression.isLooser place)
      (operand.write .expression false ++ [.name "as", .name target.text])

/-- The tokens of arguments. -/
def ArgumentList.write : ArgumentList → List Lexeme
  | .nil => []
  | .cons first .nil => first.write .expression true
  | .cons first more => first.write .expression true ++ .mark "," :: more.write

/-- The tokens of values with their weights. -/
def Pairs.write : Pairs → List Lexeme
  | .single value weight => value.write .additive true ++ .mark ":" :: weight.write .additive true
  | .cons value weight more =>
    value.write .additive true ++ .mark ":" :: (weight.write .additive true ++ .mark "," :: more.write)

end

/-- **The printer**: the tokens of a whole expression. -/
def Expression.print (e : Expression) : List Lexeme :=
  e.write .expression true

/-! ## What is printed is a writing -/

section Lexemes

variable {t : Token} {tokens : List Token} {lexeme : Lexeme} {lexemes rest : List Lexeme}

theorem lexeme_eq_mk {kind : TokenKind} {text : String} (h : t.lexeme = ⟨kind, text⟩) : t.Is kind text := by
  rw [Token.lexeme, Lexeme.mk.injEq] at h
  exact h

theorem lexeme_eq_mark {text : String} (h : t.lexeme = .mark text) : t.Is .mark text :=
  lexeme_eq_mk h

theorem lexeme_eq_name {text : String} (h : t.lexeme = .name text) : t.Is .name text :=
  lexeme_eq_mk h

theorem lexeme_eq_number {text : String} (h : t.lexeme = .number text) : t.Is .number text :=
  lexeme_eq_mk h

theorem FreeName.isFreeName {name : FreeName} (h : t.lexeme = .name name.text) :
    TokenReader.isFreeName t = true := by
  obtain ⟨hkind, htext⟩ := lexeme_eq_name h
  rw [TokenReader.isFreeName, hkind, htext, List.contains_eq_mem, decide_eq_false name.free]
  rfl

theorem CallName.isCallName {name : CallName} (h : t.lexeme = .name name.text) :
    TokenReader.isCallName t = true := by
  obtain ⟨hkind, htext⟩ := lexeme_eq_name h
  rw [TokenReader.isCallName, hkind, htext, Bool.and_eq_true, Bool.or_eq_true, Bool.not_eq_true']
  refine ⟨rfl, name.callable.imp (fun hfree => ?_) beq_iff_eq.mpr⟩
  rw [List.contains_eq_mem, decide_eq_false hfree]

theorem UnitWord.isUnit {word : UnitWord} (h : t.lexeme = word.lexeme) : TokenReader.isUnit t = true := by
  cases word with
  | name word known =>
    have hfree := FreeName.isFreeName h
    rw [TokenReader.isUnit, hfree, (lexeme_eq_name h).2, known]
    exact Bool.or_true _
  | label text =>
    rw [TokenReader.isUnit, (lexeme_eq_mk h).1]
    rfl

end Lexemes

theorem UnitStep.continuesUnit (steps : List UnitStep) (words : List String) {tokens : List Token}
    (h : tokens.map Token.lexeme = steps.flatMap UnitStep.lexemes) :
    -- each step of a unit is what the reader takes in one round, so the words grow the same way
    ContinuesUnit words tokens (steps.foldl UnitStep.extend words) := by
  induction steps generalizing words tokens with
  | nil =>
    obtain rfl := List.map_eq_nil_iff.mp h
    exact .nil
  | cons step steps ih =>
    rw [List.flatMap_cons] at h
    cases step with
    | raised power =>
      obtain ⟨hat, _, rfl, hhat, h⟩ := List.map_eq_cons_iff.mp h
      obtain ⟨number, tokens, rfl, hnumber, hmore⟩ := List.map_eq_cons_iff.mp h
      obtain ⟨hkind, rfl⟩ := lexeme_eq_number hnumber
      exact .raised (isMark_of_is (lexeme_eq_mark hhat) List.mem_cons_self) hkind (ih _ hmore)
    | lowered power =>
      obtain ⟨hat, _, rfl, hhat, h⟩ := List.map_eq_cons_iff.mp h
      obtain ⟨minus, _, rfl, hminus, h⟩ := List.map_eq_cons_iff.mp h
      obtain ⟨number, tokens, rfl, hnumber, hmore⟩ := List.map_eq_cons_iff.mp h
      obtain ⟨hkind, rfl⟩ := lexeme_eq_number hnumber
      exact .lowered (isMark_of_is (lexeme_eq_mark hhat) List.mem_cons_self) (lexeme_eq_mark hminus) hkind
        (ih _ hmore)
    | divided word =>
      obtain ⟨slash, _, rfl, hslash, h⟩ := List.map_eq_cons_iff.mp h
      obtain ⟨unit, tokens, rfl, hunit, hmore⟩ := List.map_eq_cons_iff.mp h
      rw [List.foldl_cons, UnitStep.extend, ← hunit]
      exact .divided (.inl (lexeme_eq_mark hslash)) (UnitWord.isUnit hunit) (ih _ hmore)
    | beside word =>
      obtain ⟨unit, tokens, rfl, hunit, hmore⟩ := List.map_eq_cons_iff.mp h
      rw [List.foldl_cons, UnitStep.extend, ← hunit]
      exact .beside (UnitWord.isUnit hunit) (ih _ hmore)

theorem UnitPhrase.writesUnit (unit : UnitPhrase) {tokens : List Token}
    (h : tokens.map Token.lexeme = unit.lexemes) : WritesUnit unit.text tokens := by
  obtain ⟨first, tokens, rfl, hfirst, hmore⟩ := List.map_eq_cons_iff.mp h
  rw [UnitPhrase.text, ← hfirst]
  exact .mk (UnitWord.isUnit hfirst) (UnitStep.continuesUnit unit.more _ hmore)

theorem Twiddle.writesTwiddle (factor : Twiddle) {tokens : List Token}
    (h : tokens.map Token.lexeme = factor.lexemes) : WritesTwiddle factor.node tokens := by
  cases factor with
  | percent value hvalue =>
    obtain ⟨wave, _, rfl, hwave, h⟩ := List.map_eq_cons_iff.mp h
    obtain ⟨number, _, rfl, hnumber, h⟩ := List.map_eq_cons_iff.mp h
    obtain ⟨mark, _, rfl, hmark, h⟩ := List.map_eq_cons_iff.mp h
    obtain rfl := List.map_eq_nil_iff.mp h
    obtain ⟨hkind, htext⟩ := lexeme_eq_number hnumber
    rw [Twiddle.node, ← Decimal.read_written hvalue, ← htext]
    exact .percent (lexeme_eq_mark hwave) hkind (lexeme_eq_mark hmark)
  | decibel value hvalue =>
    obtain ⟨wave, _, rfl, hwave, h⟩ := List.map_eq_cons_iff.mp h
    obtain ⟨number, _, rfl, hnumber, h⟩ := List.map_eq_cons_iff.mp h
    obtain ⟨mark, _, rfl, hmark, h⟩ := List.map_eq_cons_iff.mp h
    obtain rfl := List.map_eq_nil_iff.mp h
    obtain ⟨hkind, htext⟩ := lexeme_eq_number hnumber
    rw [Twiddle.node, ← Decimal.read_written hvalue, ← htext]
    exact .decibel (lexeme_eq_mark hwave) hkind (.inl (lexeme_eq_name hmark))

/-- A connective between writings of its operands. -/
theorem Connective.writes {op : Connective} {last : Bool} {l r : Node} {tokens marks rest : List Token}
    (hmarks : marks.map Token.lexeme = op.lexemes) (hleft : Writes (.node op.left false l) tokens)
    (hright : Writes (.node op.right last r) rest) :
    Writes (.node op.level last (op.make l r)) (tokens ++ (marks ++ rest)) := by
  cases op with
  | add =>
    obtain ⟨mark, rfl, hmark⟩ := List.map_eq_singleton_iff.mp hmarks
    exact .sum hleft (.inl rfl) (lexeme_eq_mark hmark) hright
  | subtract =>
    obtain ⟨mark, rfl, hmark⟩ := List.map_eq_singleton_iff.mp hmarks
    exact .sum hleft (.inr rfl) (lexeme_eq_mark hmark) hright
  | multiply =>
    obtain ⟨mark, rfl, hmark⟩ := List.map_eq_singleton_iff.mp hmarks
    exact .term hleft (.inl rfl) (lexeme_eq_mark hmark) hright
  | divide =>
    obtain ⟨mark, rfl, hmark⟩ := List.map_eq_singleton_iff.mp hmarks
    exact .term hleft (.inr rfl) (lexeme_eq_mark hmark) hright
  | power =>
    obtain ⟨mark, rfl, hmark⟩ := List.map_eq_singleton_iff.mp hmarks
    exact .power hleft (isMark_of_is (lexeme_eq_mark hmark) List.mem_cons_self) hright
  | compare c =>
    obtain ⟨mark, rfl, hmark⟩ := List.map_eq_singleton_iff.mp hmarks
    exact .comparison hleft (lexeme_eq_mark hmark) hright
  | range =>
    obtain ⟨mark, rfl, hmark⟩ := List.map_eq_singleton_iff.mp hmarks
    exact .range hleft (.upTo (lexeme_eq_name hmark)) hright
  | uniform =>
    obtain ⟨mark, rfl, hmark⟩ := List.map_eq_singleton_iff.mp hmarks
    exact .range hleft (.dots (lexeme_eq_mark hmark)) hright
  | normal =>
    obtain ⟨mark, rfl, hmark⟩ := List.map_eq_singleton_iff.mp hmarks
    exact .range hleft (.spread (.inl (lexeme_eq_mark hmark))) hright
  -- the one connective of two words
  | outOf =>
    obtain ⟨out, _, rfl, hout, h⟩ := List.map_eq_cons_iff.mp hmarks
    obtain ⟨word, rfl, hword⟩ := List.map_eq_singleton_iff.mp h
    exact .range hleft (.outOf (lexeme_eq_name hout) (lexeme_eq_name hword)) hright
  | against =>
    obtain ⟨mark, rfl, hmark⟩ := List.map_eq_singleton_iff.mp hmarks
    exact .range hleft (.against (lexeme_eq_name hmark)) hright

/-- An expression of a level may stand where a looser one is asked for. -/
theorem writes_of_tighter {own place : Precedence} {last : Bool} {n : Node} {tokens : List Token}
    (h : Writes (.node own last n) tokens) (hrank : place.rank ≤ own.rank) :
    Writes (.node place last n) tokens := by
  obtain ⟨steps, hsteps⟩ := Nat.exists_eq_add_of_le hrank
  induction steps generalizing place with
  | zero =>
    obtain rfl : place = own := by cases place <;> cases own <;> first | rfl | exact absurd hsteps (by decide)
    exact h
  | succ steps ih =>
    rcases hnext : place.next? with _ | next
    · have hnine : own.rank ≤ 9 := by cases own <;> decide
      cases place <;> cases hnext
      have hprimary : Precedence.primary.rank = 9 := rfl
      omega
    · have hrank := Precedence.rank_next hnext
      exact .tighter hnext (ih (by omega) (by omega))

/-- Parentheses make an expression of a level fit in any place, last or not. -/
theorem writes_of_enclosedIf {own place : Precedence} {last needed : Bool} {n : Node}
    {inside : List Lexeme} {tokens : List Token} (h : tokens.map Token.lexeme = enclosedIf needed inside)
    (hneeded : needed = false → place.rank ≤ own.rank)
    (hinside : ∀ tokens : List Token, tokens.map Token.lexeme = inside →
      Writes (.node own (last || needed) n) tokens) : Writes (.node place last n) tokens := by
  have hexpression : Precedence.expression.rank ≤ own.rank := by cases own <;> decide
  have hprimary : place.rank ≤ Precedence.primary.rank := by cases place <;> decide
  cases needed with
  | false =>
    have hwrites := hinside tokens h
    rw [Bool.or_false] at hwrites
    exact writes_of_tighter hwrites (hneeded rfl)
  | true =>
    obtain ⟨opening, _, rfl, hopening, h⟩ := List.map_eq_cons_iff.mp h
    obtain ⟨tokens, _, rfl, htokens, h⟩ := List.map_eq_append_iff.mp h
    obtain ⟨closing, rfl, hclosing⟩ := List.map_eq_singleton_iff.mp h
    exact writes_of_tighter (.enclosed (lexeme_eq_mark hopening) (lexeme_eq_mark hclosing)
      (writes_of_tighter (hinside tokens htokens) hexpression)) hprimary

theorem not_isLooser {own place : Precedence} (h : own.isLooser place = false) : place.rank ≤ own.rank :=
  not_lt.mp (of_decide_eq_false h)

mutual

theorem Expression.writes (e : Expression) {place : Precedence} {last : Bool} {tokens : List Token}
    (h : tokens.map Token.lexeme = e.write place last) : Writes (.node place last e.node) tokens := by
  -- what binds tightest may be written wherever an expression may
  have hprimary : place.rank ≤ Precedence.primary.rank := by cases place <;> decide
  cases e with
  | number value hvalue =>
    refine writes_of_tighter ?_ hprimary
    obtain ⟨t, rfl, ht⟩ := List.map_eq_singleton_iff.mp h
    obtain ⟨hkind, htext⟩ := lexeme_eq_number ht
    rw [Expression.node, ← Decimal.read_written hvalue, ← htext]
    exact .number hkind
  | measure value hvalue unit =>
    refine writes_of_tighter ?_ hprimary
    obtain ⟨opening, _, rfl, hopening, h⟩ := List.map_eq_cons_iff.mp h
    obtain ⟨t, _, rfl, ht, h⟩ := List.map_eq_cons_iff.mp h
    obtain ⟨tokens, _, rfl, htokens, h⟩ := List.map_eq_append_iff.mp h
    obtain ⟨closing, rfl, hclosing⟩ := List.map_eq_singleton_iff.mp h
    obtain ⟨hkind, htext⟩ := lexeme_eq_number ht
    rw [Expression.node, ← Decimal.read_written hvalue, ← htext]
    exact .measure (lexeme_eq_mark hopening) hkind (unit.writesUnit htokens) (lexeme_eq_mark hclosing)
  | sigFig literal =>
    refine writes_of_tighter ?_ hprimary
    obtain ⟨wave, _, rfl, hwave, h⟩ := List.map_eq_cons_iff.mp h
    obtain ⟨t, rfl, ht⟩ := List.map_eq_singleton_iff.mp h
    obtain ⟨hkind, rfl⟩ := lexeme_eq_number ht
    exact .sigFig (lexeme_eq_mark hwave) hkind
  | sigFigMeasure literal unit hunit =>
    refine writes_of_tighter ?_ hprimary
    obtain ⟨opening, _, rfl, hopening, h⟩ := List.map_eq_cons_iff.mp h
    obtain ⟨wave, _, rfl, hwave, h⟩ := List.map_eq_cons_iff.mp h
    obtain ⟨t, _, rfl, ht, h⟩ := List.map_eq_cons_iff.mp h
    obtain ⟨tokens, _, rfl, htokens, h⟩ := List.map_eq_append_iff.mp h
    -- the first word of the unit is not decibels, so the tilde does not begin a factor of precision
    obtain ⟨closing, rfl, hclosing⟩ := List.map_eq_singleton_iff.mp h
    obtain ⟨hkind, rfl⟩ := lexeme_eq_number ht
    have hwrites := unit.writesUnit htokens
    obtain ⟨first, more, rfl, hfirst, -⟩ := List.map_eq_cons_iff.mp htokens
    have hword : ∀ word ∈ ["dB", "db"], isWord word first = false := by
      intro word hword
      have hne : first.text ≠ word := fun heq =>
        hunit ((congrArg Lexeme.text hfirst).symm.trans heq ▸ hword)
      rw [isWord, beq_eq_false_iff_ne.mpr hne, Bool.and_false]
    exact .sigFigMeasure (lexeme_eq_mark hopening) (lexeme_eq_mark hwave) hkind hwrites
      ⟨hword _ (by decide), hword _ (by decide)⟩ (lexeme_eq_mark hclosing)
  | identifier name =>
    refine writes_of_tighter ?_ hprimary
    obtain ⟨t, rfl, ht⟩ := List.map_eq_singleton_iff.mp h
    rw [Expression.node, ← (lexeme_eq_name ht).2]
    exact .identifier (FreeName.isFreeName ht)
  | twiddle factor =>
    exact writes_of_tighter (.twiddle (factor.writesTwiddle h)) hprimary
  | call name arguments =>
    refine writes_of_tighter ?_ hprimary
    obtain ⟨t, _, rfl, ht, h⟩ := List.map_eq_cons_iff.mp h
    obtain ⟨opening, _, rfl, hopening, h⟩ := List.map_eq_cons_iff.mp h
    obtain ⟨tokens, _, rfl, htokens, h⟩ := List.map_eq_append_iff.mp h
    obtain ⟨closing, rfl, hclosing⟩ := List.map_eq_singleton_iff.mp h
    rw [Expression.node, ← (lexeme_eq_name ht).2]
    -- no arguments leave nothing between the parentheses
    rcases arguments.writes htokens with ⟨hnodes, rfl⟩ | hwrites
    · rw [hnodes]
      exact .callNone (CallName.isCallName ht) (lexeme_eq_mark hopening) (lexeme_eq_mark hclosing)
    · exact .call (CallName.isCallName ht) (lexeme_eq_mark hopening) hwrites (lexeme_eq_mark hclosing)
  | set pairs =>
    refine writes_of_tighter ?_ hprimary
    obtain ⟨opening, _, rfl, hopening, h⟩ := List.map_eq_cons_iff.mp h
    obtain ⟨tokens, _, rfl, htokens, h⟩ := List.map_eq_append_iff.mp h
    obtain ⟨closing, rfl, hclosing⟩ := List.map_eq_singleton_iff.mp h
    exact .set (lexeme_eq_mark hopening) (pairs.writes htokens) (lexeme_eq_mark hclosing)
  | binding name value body =>
    -- an open form takes what follows, so it has parentheses wherever something may
    refine writes_of_enclosedIf h (fun _ => hprimary) fun tokens h => ?_
    obtain ⟨word, _, rfl, hword, h⟩ := List.map_eq_cons_iff.mp h
    obtain ⟨t, _, rfl, ht, h⟩ := List.map_eq_cons_iff.mp h
    obtain ⟨sign, _, rfl, hsign, h⟩ := List.map_eq_cons_iff.mp h
    obtain ⟨tokens, _, rfl, htokens, h⟩ := List.map_eq_append_iff.mp h
    obtain ⟨between, rest, rfl, hbetween, h⟩ := List.map_eq_cons_iff.mp h
    rw [Bool.or_not_self, Expression.node, ← (lexeme_eq_name ht).2]
    exact .binding (lexeme_eq_name hword) (FreeName.isFreeName ht) (lexeme_eq_mark hsign)
      (value.writes htokens) (lexeme_eq_name hbetween) (body.writes h)
  | choice condition yes no =>
    refine writes_of_enclosedIf h (fun _ => hprimary) fun tokens h => ?_
    obtain ⟨word, _, rfl, hword, h⟩ := List.map_eq_cons_iff.mp h
    obtain ⟨tokens, _, rfl, htokens, h⟩ := List.map_eq_append_iff.mp h
    obtain ⟨first, _, rfl, hfirst, h⟩ := List.map_eq_cons_iff.mp h
    obtain ⟨middle, _, rfl, hmiddle, h⟩ := List.map_eq_append_iff.mp h
    obtain ⟨second, rest, rfl, hsecond, h⟩ := List.map_eq_cons_iff.mp h
    rw [Bool.or_not_self]
    exact .choice (lexeme_eq_name hword) (condition.writes htokens) (lexeme_eq_name hfirst)
      (yes.writes hmiddle) (lexeme_eq_name hsecond) (no.writes h)
  | negate operand =>
    refine writes_of_enclosedIf h not_isLooser fun tokens h => ?_
    obtain ⟨minus, tokens, rfl, hminus, h⟩ := List.map_eq_cons_iff.mp h
    exact .negate (lexeme_eq_mark hminus) (operand.writes h)
  | joined op left right =>
    rw [Expression.write] at h
    split at h
    · -- a twiddle behind its operand does without the sign of the product
      rename_i hbare
      obtain ⟨rfl, htwiddle, -⟩ := hbare
      cases right with
      | twiddle factor =>
        refine writes_of_enclosedIf h not_isLooser fun tokens h => ?_
        obtain ⟨tokens, rest, rfl, htokens, h⟩ := List.map_eq_append_iff.mp h
        exact .twiddled (left.writes htokens) (factor.writesTwiddle h)
      | _ => cases htwiddle
    · refine writes_of_enclosedIf h not_isLooser fun tokens h => ?_
      obtain ⟨tokens, _, rfl, htokens, h⟩ := List.map_eq_append_iff.mp h
      obtain ⟨marks, rest, rfl, hmarks, h⟩ := List.map_eq_append_iff.mp h
      exact op.writes hmarks (left.writes htokens) (right.writes h)
  | conversion operand target =>
    refine writes_of_enclosedIf h not_isLooser fun tokens h => ?_
    obtain ⟨tokens, _, rfl, htokens, h⟩ := List.map_eq_append_iff.mp h
    obtain ⟨sign, _, rfl, hsign, h⟩ := List.map_eq_cons_iff.mp h
    obtain ⟨t, rfl, ht⟩ := List.map_eq_singleton_iff.mp h
    rw [Expression.node, ← (lexeme_eq_name ht).2]
    exact .conversion (operand.writes htokens) (.inr (lexeme_eq_name hsign)) (.inl (FreeName.isFreeName ht))

theorem ArgumentList.writes (arguments : ArgumentList) {tokens : List Token}
    (h : tokens.map Token.lexeme = arguments.write) :
    (arguments.nodes = [] ∧ tokens = []) ∨ Writes (.arguments arguments.nodes) tokens := by
  cases arguments with
  | nil => exact .inl ⟨rfl, List.map_eq_nil_iff.mp h⟩
  | cons first more =>
    cases more with
    | nil => exact .inr (.argument (first.writes h))
    | cons second more =>
      obtain ⟨tokens, _, rfl, htokens, h⟩ := List.map_eq_append_iff.mp h
      obtain ⟨comma, rest, rfl, hcomma, h⟩ := List.map_eq_cons_iff.mp h
      rcases (ArgumentList.cons second more).writes h with ⟨hnodes, -⟩ | hwrites
      · cases hnodes
      · exact .inr (.arguments (first.writes htokens) (lexeme_eq_mark hcomma) hwrites)

theorem Pairs.writes (pairs : Pairs) {tokens : List Token} (h : tokens.map Token.lexeme = pairs.write) :
    Writes (.pairs pairs.values pairs.weights) tokens := by
  cases pairs with
  | single value weight =>
    obtain ⟨tokens, _, rfl, htokens, h⟩ := List.map_eq_append_iff.mp h
    obtain ⟨colon, rest, rfl, hcolon, h⟩ := List.map_eq_cons_iff.mp h
    exact .pair (value.writes htokens) (lexeme_eq_mark hcolon) (weight.writes h)
  | cons value weight more =>
    obtain ⟨tokens, _, rfl, htokens, h⟩ := List.map_eq_append_iff.mp h
    obtain ⟨colon, _, rfl, hcolon, h⟩ := List.map_eq_cons_iff.mp h
    obtain ⟨middle, _, rfl, hmiddle, h⟩ := List.map_eq_append_iff.mp h
    obtain ⟨comma, rest, rfl, hcomma, h⟩ := List.map_eq_cons_iff.mp h
    exact .pairs (value.writes htokens) (lexeme_eq_mark hcolon) (weight.writes hmiddle)
      (lexeme_eq_mark hcomma) (more.writes h)

end

/-- **Reading undoes printing**: the printed tokens of an expression, wherever they stand in a text, are
read as its tree, and none of them is left. So are all other tokens that write it. -/
theorem Expression.read_back (e : Expression) {tokens : List Token} {finish : Token}
    (hfinish : finish.kind = .finish) :
    (tokens.map Token.lexeme = e.print →
      wholeExpression.run (tokens ++ [finish]) = .ok (e.node, [finish])) ∧
    (Writes (.node .expression true e.node) tokens →
      wholeExpression.run (tokens ++ [finish]) = .ok (e.node, [finish])) :=
  ⟨fun hprint => run_wholeExpression (e.writes hprint) hfinish,
    fun hwrites => run_wholeExpression hwrites hfinish⟩

/-- The opposite of the square of a sum, as metres. -/
def Expression.oppositeSquare : Expression :=
  .conversion (.negate (.joined .power (.joined .add (.identifier ⟨"x", by decide⟩)
    (.number (.ofNat 2) rfl)) (.number (.ofNat 2) rfl))) ⟨"m", by decide⟩

/-- `-(x + 2)^2 as m` is read as it was printed. -/
theorem Expression.oppositeSquare_read :
    wholeExpression.run (Expression.oppositeSquare.print.map (fun l => ⟨l.kind, l.text, 1, 1⟩) ++
      [⟨.finish, "", 1, 16⟩]) = .ok (Expression.oppositeSquare.node, [⟨.finish, "", 1, 16⟩]) :=
  (Expression.oppositeSquare.read_back rfl).1 (by
    rw [List.map_map]
    exact List.map_id _)

/-- A unit whose name has a fixed role is no target: `x as in` is not read. -/
theorem inches_unread :
    UnitName.isKnown "in" = true ∧
      wholeExpression.run [⟨.name, "x", 1, 1⟩, ⟨.name, "as", 1, 3⟩, ⟨.name, "in", 1, 6⟩,
        ⟨.finish, "", 1, 8⟩] = .error ⟨.expectedUnit "'in'", 1, 6⟩ :=
  ⟨by decide +kernel, rfl⟩

end Ballpark
