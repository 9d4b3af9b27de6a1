import Ballpark.Program.Node
import Ballpark.Program.Token
import Ballpark.Unit.Name

/-!
# Reading programs

From tokens to syntax trees. Precedence, loosest first:

    statement   := name "=" expression | name "(" parameters ")" "=" expression
                 | number label "=" expression | expression
    expression  := comparison (("as" | "->") target)*
    comparison  := additive (mark additive)?
    additive    := term (("+" | "-") term)*
    term        := range (("*" | "/") range)*
    range       := unary [("to" | ".." | "+-" | "±") unary [unit]
                          | "out" "of" unary | "against" unary]
    unary       := ("-" | "+") unary | power
    power       := postfix (("^" | "**") unary)?
    twiddled    := primary ("~" number ("%" | "dB"))*
    primary     := number [unit] | "~" number [unit] | label-unit
                 | name "(" arguments ")" | name | "(" expression ")" [unit]
                 | set [unit] | "let" name "=" expression "in" expression
                 | "if" expression "then" expression "else" expression
    set         := an opening brace, pairs additive ":" additive with commas between them,
                   and a closing brace

The first name behind a literal that is no keyword is its unit, known or not. From there the unit goes
on only over names that are known units, so `10 m / s` is a speed and `10 m / t0` divides by a
variable.
-/

namespace Ballpark

/-- Readers of tokens. -/
abbrev TokenReader := StateT (List Token) (Except ProgramFault)

namespace TokenReader

/-- Names with a fixed role. -/
def keywords : List String :=
  ["let", "in", "if", "then", "else", "to", "as", "out", "of", "against"]

/-- Names that are never read as an unknown unit behind a literal. -/
def nonUnitWords : List String :=
  ["per", "dB", "db", "SI"]

/-- The comparisons of two operands. -/
def comparisonMarks : List String :=
  Comparison.all.map (·.text)

/-- The token `offset` places ahead; behind the end stands the end. -/
def tokenAt (tokens : List Token) (offset : Nat) : Token :=
  (tokens[offset]?).getD (tokens.getLastD ⟨.finish, "", 1, 1⟩)

/-- Is the token one of these operators? -/
def isMark (marks : List String) (t : Token) : Bool :=
  t.kind == .mark && marks.contains t.text

/-- Is the token this word? -/
def isWord (word : String) (t : Token) : Bool :=
  t.kind == .name && t.text == word

/-- Is the token a name without a fixed role? -/
def isFreeName (t : Token) : Bool :=
  t.kind == .name && !keywords.contains t.text

/-- Is the token a label or the name of a known unit? -/
def isUnit (t : Token) : Bool :=
  t.kind == .label || (isFreeName t && UnitName.isKnown t.text)

/-- Is the token behind a literal its unit, known or not? `next` is the token after it. -/
def isUnitWord (t next : Token) : Bool :=
  isUnit t || (isFreeName t && !nonUnitWords.contains t.text && !isMark ["("] next)

/-- Do three tokens make a twiddle: a wave, a number and its mark? -/
def isTwiddle (wave number mark : Token) : Bool :=
  isMark ["~"] wave && number.kind == .number &&
    (isMark ["%"] mark || isWord "dB" mark || isWord "db" mark)

/-- The token `offset` places ahead. -/
def peek (offset : Nat) : TokenReader Token :=
  return tokenAt (← get) offset

/-- Takes the next token; the end is never passed. -/
def advance : TokenReader Token := do
  let t ← peek 0
  if t.kind != .finish then modify (·.drop 1)
  return t

/-- Skips some tokens. -/
def skip (count : Nat) : TokenReader PUnit :=
  modify (·.drop count)

/-- Fails at a token. -/
def failAt {α : Type} (t : Token) (issue : ProgramIssue) : TokenReader α :=
  throw ⟨issue, t.line, t.column⟩

/-- Fails where the reader stands. -/
def failHere {α : Type} (issue : Token → ProgramIssue) : TokenReader α := do
  let t ← peek 0
  failAt t (issue t)

/-- Is the next token one of these operators? -/
def atMark (marks : List String) : TokenReader Bool :=
  return isMark marks (← peek 0)

/-- Is the next token this word? -/
def atWord (word : String) : TokenReader Bool :=
  return isWord word (← peek 0)

/-- Takes an operator. -/
def expectMark (mark : String) : TokenReader PUnit := do
  if ← atMark [mark] then skip 1 else failHere fun t => .expected mark t.shown

/-- Takes a word. -/
def expectWord (word : String) : TokenReader PUnit := do
  if ← atWord word then skip 1 else failHere fun t => .expected word t.shown

/-- Takes a name without a fixed role. -/
def expectName : TokenReader String := do
  let t ← peek 0
  if isFreeName t then
    skip 1
    return t.text
  else failAt t (.expectedName t.shown)

/-! ## Units -/

/-- Puts a power behind the last word of a unit. -/
def raiseLast (words : List String) (power : String) : List String :=
  match words with
  | [] => []
  | word :: before => (word ++ "^" ++ power) :: before

/-- Goes on reading a unit; its words so far, the last one first. -/
def unitWords : Nat → List String → TokenReader (List String)
  | 0, words => return words
  | limit + 1, words => do
    let t ← peek 0
    let next ← peek 1
    -- a power belongs to the last word: a number, or a minus and then a number
    if isMark ["^", "**"] t then
      if next.kind == .number then
        skip 2
        unitWords limit (raiseLast words next.text)
      else
        let third ← peek 2
        if isMark ["-"] next && third.kind == .number then
          skip 3
          unitWords limit (raiseLast words ("-" ++ third.text))
        else return words
    -- a slash that no unit follows is left to divide what has been read
    else if (isMark ["/"] t || isWord "per" t) && isUnit next then
      skip 2
      unitWords limit (next.text :: "/" :: words)
    else if isUnit t then
      skip 1
      unitWords limit (t.text :: words)
    else return words

/-- Reads the text of a unit. -/
def unitText : TokenReader String := do
  let first ← advance
  let words ← unitWords (← get).length [first.text]
  return " ".intercalate words.reverse

/-- Reads a unit if one follows. -/
def trailingUnit : TokenReader (Option String) := do
  if isUnitWord (← peek 0) (← peek 1) then return some (← unitText) else return none

/-- Goes on reading the target of a conversion: its words so far, the last one first, and the number
of open parentheses. -/
def targetWords : Nat → List String → Nat → TokenReader (List String)
  | 0, words, _ => return words
  | limit + 1, words, depth => do
    let t ← peek 0
    -- a number may stand inside a target, as a power or a factor, but it does not begin one
    if isFreeName t || t.kind == .label || (t.kind == .number && !words.isEmpty)
        || isMark ["/", "*", "^", "**"] t
        || (isMark ["-"] t && words.head?.any fun w => w == "^" || w == "**") then
      skip 1
      targetWords limit (t.text :: words) depth
    else if isMark ["("] t then
      skip 1
      targetWords limit (t.text :: words) (depth + 1)
    else if isMark [")"] t && 0 < depth then
      skip 1
      targetWords limit (t.text :: words) (depth - 1)
    else return words

/-- Reads the target of a conversion. -/
def conversionTarget : TokenReader String := do
  if ← atWord "SI" then
    skip 1
    return "SI"
  else
    let words ← targetWords (← get).length [] 0
    if words.isEmpty then failHere fun t => .expectedUnit t.shown
    else return " ".intercalate words.reverse

/-! ## Expressions -/

/-- Is a twiddle next? -/
def atTwiddle : TokenReader Bool :=
  return isTwiddle (← peek 0) (← peek 1) (← peek 2)

/-- Reads a twiddle. -/
def twiddle : TokenReader Node := do
  skip 1
  let number ← advance
  let mark ← advance
  let value := Decimal.ofText number.text
  return if mark.text == "%" then .percentTwiddle value else .decibelTwiddle value

/-- Fails because brackets are nested too deep. -/
def tooDeep {α : Type} : TokenReader α :=
  failHere fun _ => .nesting

mutual

/-- Reads an expression. -/
def expression : Nat → TokenReader Node
  | 0 => tooDeep
  | limit + 1 => do conversions limit (← comparison limit)

/-- Goes on with conversions. -/
def conversions : Nat → Node → TokenReader Node
  | 0, _ => tooDeep
  | limit + 1, node => do
    if (← atMark ["->"]) || (← atWord "as") then
      skip 1
      conversions limit (.conversion node (← conversionTarget))
    else return node

/-- Reads a sum or one comparison of two. -/
def comparison : Nat → TokenReader Node
  | 0 => tooDeep
  | limit + 1 => do
    let left ← additive limit
    let t ← peek 0
    -- one comparison only: a second sign ends the expression
    if isMark comparisonMarks t then
      skip 1
      return .binary (.ofText t.text) left (← additive limit)
    else return left

/-- Reads a sum. -/
def additive : Nat → TokenReader Node
  | 0 => tooDeep
  | limit + 1 => do additiveRest limit (← term limit)

/-- Goes on with terms of a sum. -/
def additiveRest : Nat → Node → TokenReader Node
  | 0, _ => tooDeep
  | limit + 1, left => do
    let t ← peek 0
    if isMark ["+", "-"] t then
      skip 1
      additiveRest limit (.binary (.ofText t.text) left (← term limit))
    else return left

/-- Reads a product. -/
def term : Nat → TokenReader Node
  | 0 => tooDeep
  | limit + 1 => do termRest limit (← range limit)

/-- Goes on with factors of a product. -/
def termRest : Nat → Node → TokenReader Node
  | 0, _ => tooDeep
  | limit + 1, left => do
    let t ← peek 0
    if isMark ["*", "/"] t then
      skip 1
      termRest limit (.binary (.ofText t.text) left (← range limit))
    else return left

/-- Reads a range, odds, or a single operand. -/
def range : Nat → TokenReader Node
  | 0 => tooDeep
  | limit + 1 => do
    let left ← unary limit
    let t ← peek 0
    if isWord "to" t then
      skip 1
      let right ← unary limit
      -- a literal has taken the unit behind it already; this one stands behind another operand
      return .range left right (← trailingUnit)
    else if isMark [".."] t then
      skip 1
      let right ← unary limit
      return .uniformRange left right (← trailingUnit)
    else if isMark ["+-", "±"] t then
      skip 1
      let spread ← unary limit
      return .normalRange left spread (← trailingUnit)
    else if isWord "out" t then
      skip 1
      expectWord "of"
      return .betaOf left (← unary limit)
    else if isWord "against" t then
      skip 1
      return .betaAgainst left (← unary limit)
    else return left

/-- Reads an operand with its signs. -/
def unary : Nat → TokenReader Node
  | 0 => tooDeep
  | limit + 1 => do
    let t ← peek 0
    if isMark ["-"] t then
      skip 1
      return .unary .negate (← unary limit)
    else if isMark ["+"] t then
      skip 1
      unary limit
    else power limit

/-- Reads a power. -/
def power : Nat → TokenReader Node
  | 0 => tooDeep
  | limit + 1 => do
    let base ← twiddled limit
    if ← atMark ["^", "**"] then
      skip 1
      -- an exponent has signs and powers of its own, so powers group to the right
      return .binary .power base (← unary limit)
    else return base

/-- Reads a primary with its twiddles. -/
def twiddled : Nat → TokenReader Node
  | 0 => tooDeep
  | limit + 1 => do twiddledRest limit (← primary limit)

/-- Goes on with twiddles. -/
def twiddledRest : Nat → Node → TokenReader Node
  | 0, _ => tooDeep
  | limit + 1, node => do
    if ← atTwiddle then twiddledRest limit (.binary .multiply node (← twiddle))
    else return node

/-- Reads a primary. -/
def primary : Nat → TokenReader Node
  | 0 => tooDeep
  | limit + 1 => do
    let t ← peek 0
    let next ← peek 1
    if t.kind == .number then
      skip 1
      return .number (Decimal.ofText t.text) (← trailingUnit)
    else if t.kind == .label then
      return .unit (← unitText)
    else if isMark ["~"] t then
      -- the tilde is that of a twiddle, or it makes the last place of a literal uncertain
      if ← atTwiddle then twiddle
      else
        skip 1
        let literal ← peek 0
        if literal.kind == .number then
          skip 1
          return .sigFig literal.text (← trailingUnit)
        else failAt literal (.expectedLiteral literal.shown)
    else if isMark ["("] t then
      skip 1
      let inner ← expression limit
      expectMark ")"
      -- a unit behind parentheses is a factor
      if isUnit (← peek 0) then return .binary .multiply inner (.unit (← unitText))
      else return inner
    else if isMark ["\x7b"] t then
      skip 1
      let (values, weights) ← pairs limit
      expectMark "\x7d"
      return .weightedSet values weights (← trailingUnit)
    else if t.kind == .name then
      if t.text == "let" then
        skip 1
        let name ← expectName
        expectMark "="
        let value ← expression limit
        expectWord "in"
        return .letBinding name value (← expression limit)
      else if t.text == "if" then
        skip 1
        let condition ← expression limit
        expectWord "then"
        let yes ← expression limit
        expectWord "else"
        return .ifExpression condition yes (← expression limit)
      -- only one keyword may name a function, and only in front of its arguments
      else if keywords.contains t.text && !(t.text == "to" && isMark ["("] next) then
        failAt t (.keyword t.text)
      else
        skip 1
        if isMark ["("] next then
          skip 1
          if ← atMark [")"] then
            skip 1
            return .call t.text []
          else
            let found ← arguments limit
            expectMark ")"
            return .call t.text found
        else return .identifier t.text
    else failAt t (.unexpected t.shown)

/-- Reads arguments with commas between them. -/
def arguments : Nat → TokenReader (List Node)
  | 0 => tooDeep
  | limit + 1 => do
    let first ← expression limit
    if ← atMark [","] then
      skip 1
      return first :: (← arguments limit)
    else return [first]

/-- Reads the values of a set with their weights; the last pair may have a comma behind it. -/
def pairs : Nat → TokenReader (List Node × List Node)
  | 0 => tooDeep
  | limit + 1 => do
    let value ← additive limit
    expectMark ":"
    let weight ← additive limit
    if ← atMark [","] then
      skip 1
      if ← atMark ["\x7d"] then return ([value], [weight])
      else
        let (values, weights) ← pairs limit
        return (value :: values, weight :: weights)
    else return ([value], [weight])

end

/-- A limit that no text of this many tokens reaches. -/
def limitFor (tokens : List Token) : Nat :=
  12 * tokens.length + 12

/-- Reads an expression of any depth. -/
def wholeExpression : TokenReader Node := do
  expression (limitFor (← get))

/-! ## Statements -/

/-- Do the tokens go on with parameters, a closing parenthesis and a definition? -/
def parametersAhead : List Token → Bool
  | name :: mark :: rest =>
    isFreeName name &&
      if isMark [")"] mark then (rest.head?).any (isMark ["="])
      else isMark [","] mark && parametersAhead rest
  | _ => false

/-- Do the tokens behind an opening parenthesis make a function definition? -/
def definitionAhead (tokens : List Token) : Bool :=
  if isMark [")"] (tokenAt tokens 0) then isMark ["="] (tokenAt tokens 1)
  else parametersAhead tokens

/-- Reads names with commas between them. -/
def parameters : Nat → TokenReader (List String)
  | 0 => tooDeep
  | limit + 1 => do
    let first ← expectName
    if ← atMark [","] then
      skip 1
      return first :: (← parameters limit)
    else return [first]

/-- Reads a function definition. -/
def functionDefinition (name : String) : TokenReader Node := do
  skip 2
  let names ← if ← atMark [")"] then pure [] else parameters (← get).length
  expectMark ")"
  expectMark "="
  return .functionDefinition name names (← wholeExpression)

/-- Reads a statement. -/
def statement : TokenReader Node := do
  let tokens ← get
  let first := tokenAt tokens 0
  let second := tokenAt tokens 1
  if isFreeName first && isMark ["="] second then
    skip 2
    return .assignment first.text (← wholeExpression)
  -- without the sign of a definition behind the parameters this is a call
  else if isFreeName first && isMark ["("] second && definitionAhead (tokens.drop 2) then
    functionDefinition first.text
  else if first.kind == .number && second.kind == .label && isMark ["="] (tokenAt tokens 2) then
    skip 3
    return .unitDefinition second.text (Decimal.ofText first.text) (← wholeExpression)
  else wholeExpression

/-- Does the token separate statements? -/
def isSeparator (t : Token) : Bool :=
  isMark [";"] t || t.kind == .newline

/-- Reads statements up to the end. -/
def statements : Nat → TokenReader (List Node)
  | 0 => return []
  | limit + 1 => do
    -- an empty statement is none
    modify (·.dropWhile isSeparator)
    if (← peek 0).kind == .finish then return []
    else
      let first ← statement
      let t ← peek 0
      if isSeparator t || t.kind == .finish then return first :: (← statements limit)
      else failAt t (.unexpected t.shown)

/-- Skips newlines. -/
def skipNewlines : TokenReader PUnit :=
  modify (·.dropWhile (·.kind == .newline))

/-- Reads a single expression up to the end. -/
def soleExpression : TokenReader Node := do
  skipNewlines
  let node ← wholeExpression
  skipNewlines
  let t ← peek 0
  if t.kind == .finish then return node else failAt t (.unexpected t.shown)

end TokenReader

namespace Node

/-- The statements of a program's text. -/
def statementsOfText (source : String) : Except ProgramFault (List Node) := do
  let tokens ← Token.ofText source
  (TokenReader.statements tokens.length).run' tokens

/-- The tree of a program's text. -/
def ofText (source : String) : Except ProgramFault Node :=
  .program <$> statementsOfText source

/-- The tree of the text of an expression. -/
def expressionOfText (source : String) : Except ProgramFault Node := do
  TokenReader.soleExpression.run' (← Token.ofText source)

end Node

end Ballpark
