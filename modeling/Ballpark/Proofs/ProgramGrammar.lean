import Ballpark.Program.Reading

/-!
# The grammar of expressions

What tokens write an expression, as a relation with one rule for each alternative of the grammar
(`Writes`). Levels of precedence run from whole expressions to primaries; an operand may be of a tighter
level than its place asks for, and of any level between parentheses. Parentheses may stand wherever the
grammar allows them, so among the writings of a tree is the one with the fewest.

Two places ask for parentheses that precedence alone would not. A literal that has a unit always stands
in them, for what follows could be read as more of the unit. A binding or a choice takes in everything
behind it, so without parentheses it may only come last, which the flag of a form records.
-/

namespace Ballpark

/-- A token of a given sort and text. -/
def Token.Is (t : Token) (kind : TokenKind) (text : String) : Prop :=
  t.kind = kind ∧ t.text = text

/-- The levels of precedence, loosest first. -/
inductive Precedence where
  | expression | comparison | additive | term | range | unary | power | twiddled | primary
  deriving DecidableEq

namespace Precedence

/-- All levels. -/
def all : List Precedence :=
  [expression, comparison, additive, term, range, unary, power, twiddled, primary]

theorem mem_all (level : Precedence) : level ∈ all := by
  cases level <;> decide

/-- The place among the levels. -/
def rank : Precedence → Nat
  | expression => 1 | comparison => 2 | additive => 3 | term => 4 | range => 5
  | unary => 6 | power => 7 | twiddled => 8 | primary => 9

/-- The next tighter level. -/
def next? : Precedence → Option Precedence
  | expression => some comparison | comparison => some additive | additive => some term
  | term => some range | range => some unary | unary => some power
  | power => some twiddled | twiddled => some primary | primary => none

/-- Does the reader of a level go on at this token? -/
def goesOn : Precedence → Token → Bool
  | expression, t => TokenReader.isMark ["->"] t || TokenReader.isWord "as" t
  | comparison, t => TokenReader.isMark TokenReader.comparisonMarks t
  | additive, t => TokenReader.isMark ["+", "-"] t
  | term, t => TokenReader.isMark ["*", "/"] t
  | range, t => TokenReader.isWord "to" t || TokenReader.isMark [".."] t ||
      TokenReader.isMark ["+-", "±"] t || TokenReader.isWord "out" t || TokenReader.isWord "against" t
  | unary, _ => false
  | power, t => TokenReader.isMark ["^", "**"] t
  | twiddled, t => TokenReader.isMark ["~"] t
  | primary, t => TokenReader.isFreeName t || t.kind == .label || t.kind == .number ||
      TokenReader.isMark ["(", "%"] t

/-- The tightest level whose reader may go on behind an expression of a level: its own if it is one
that takes in operand after operand, else the nearest looser one that does. -/
def reach : Precedence → Nat
  | expression | comparison => 1
  | additive => 3
  | term | range => 4
  | unary | power => 6
  | twiddled | primary => 8

theorem rank_next {level next : Precedence} (h : level.next? = some next) :
    next.rank = level.rank + 1 := by
  cases level <;> cases h <;> rfl

/-- What may follow an expression of a level may follow its last operand. -/
theorem reach_next {level next : Precedence} (h : level.next? = some next) :
    level.reach ≤ next.reach ∧ level.reach < next.rank := by
  cases level <;> cases h <;> decide

/-- May an expression of a level end in front of a token? One that comes last ends where no reader
goes on. -/
def Ends (level : Precedence) (last : Bool) (t : Token) : Prop :=
  ∀ m : Precedence, (if last then 0 else level.reach) < m.rank → m.goesOn t = false

end Precedence

namespace TokenReader

/-- Tokens that continue a unit, with its words before and after them, the last one first. -/
inductive ContinuesUnit : List String → List Token → List String → Prop
  | nil {words : List String} : ContinuesUnit words [] words
  | raised {words after : List String} {hat number : Token} {tokens : List Token}
      (hhat : isMark ["^", "**"] hat = true) (hnumber : number.kind = .number)
      (h : ContinuesUnit (raiseLast words number.text) tokens after) :
      ContinuesUnit words (hat :: number :: tokens) after
  | lowered {words after : List String} {hat minus number : Token} {tokens : List Token}
      (hhat : isMark ["^", "**"] hat = true) (hminus : minus.Is .mark "-")
      (hnumber : number.kind = .number)
      (h : ContinuesUnit (raiseLast words ("-" ++ number.text)) tokens after) :
      ContinuesUnit words (hat :: minus :: number :: tokens) after
  | divided {words after : List String} {slash unit : Token} {tokens : List Token}
      (hslash : slash.Is .mark "/" ∨ slash.Is .name "per") (hunit : isUnit unit = true)
      (h : ContinuesUnit (unit.text :: "/" :: words) tokens after) :
      ContinuesUnit words (slash :: unit :: tokens) after
  | beside {words after : List String} {unit : Token} {tokens : List Token}
      (hunit : isUnit unit = true) (h : ContinuesUnit (unit.text :: words) tokens after) :
      ContinuesUnit words (unit :: tokens) after

/-- Tokens that write the text of a unit: known units and labels, with powers and slashes. -/
inductive WritesUnit : String → List Token → Prop
  | mk {first : Token} {tokens : List Token} {words : List String} (hfirst : isUnit first = true)
      (h : ContinuesUnit [first.text] tokens words) :
      WritesUnit (" ".intercalate words.reverse) (first :: tokens)

/-- Tokens that write a twiddle. -/
inductive WritesTwiddle : Node → List Token → Prop
  | percent {wave number mark : Token} (hwave : wave.Is .mark "~") (hnumber : number.kind = .number)
      (hmark : mark.Is .mark "%") :
      WritesTwiddle (.percentTwiddle (Decimal.ofText number.text)) [wave, number, mark]
  | decibel {wave number mark : Token} (hwave : wave.Is .mark "~") (hnumber : number.kind = .number)
      (hmark : mark.Is .name "dB" ∨ mark.Is .name "db") :
      WritesTwiddle (.decibelTwiddle (Decimal.ofText number.text)) [wave, number, mark]

/-- Tokens that stand between the two operands of a range or of odds. -/
inductive WritesRange : (Node → Node → Node) → List Token → Prop
  | upTo {t : Token} (h : t.Is .name "to") : WritesRange (Node.range · · none) [t]
  | dots {t : Token} (h : t.Is .mark "..") : WritesRange (Node.uniformRange · · none) [t]
  | spread {t : Token} (h : t.Is .mark "+-" ∨ t.Is .mark "±") :
      WritesRange (Node.normalRange · · none) [t]
  | outOf {t u : Token} (ht : t.Is .name "out") (hu : u.Is .name "of") : WritesRange .betaOf [t, u]
  | against {t : Token} (h : t.Is .name "against") : WritesRange .betaAgainst [t]

/-- May a call start with this token? -/
def isCallName (t : Token) : Bool :=
  t.kind == .name && (!keywords.contains t.text || t.text == "to")

/-- What tokens can write: an expression of a level, which may have to come last, arguments, or pairs
of values and weights. -/
inductive Form where
  | node (level : Precedence) (last : Bool) (node : Node)
  | arguments (nodes : List Node)
  | pairs (values weights : List Node)

/-- **The grammar of expressions**: tokens that write a form. -/
inductive Writes : Form → List Token → Prop
  | tighter {level next : Precedence} {last : Bool} {n : Node} {tokens : List Token}
      (hnext : level.next? = some next) (h : Writes (.node next last n) tokens) :
      Writes (.node level last n) tokens
  | enclosed {last inner : Bool} {n : Node} {opening closing : Token} {tokens : List Token}
      (hopening : opening.Is .mark "(") (hclosing : closing.Is .mark ")")
      (h : Writes (.node .expression inner n) tokens) :
      Writes (.node .primary last n) (opening :: (tokens ++ [closing]))
  | number {last : Bool} {t : Token} (ht : t.kind = .number) :
      Writes (.node .primary last (.number (Decimal.ofText t.text) none)) [t]
  | measure {last : Bool} {opening t closing : Token} {unit : String} {tokens : List Token}
      (hopening : opening.Is .mark "(") (ht : t.kind = .number) (hunit : WritesUnit unit tokens)
      (hclosing : closing.Is .mark ")") :
      Writes (.node .primary last (.number (Decimal.ofText t.text) (some unit)))
        (opening :: t :: (tokens ++ [closing]))
  | sigFig {last : Bool} {wave t : Token} (hwave : wave.Is .mark "~") (ht : t.kind = .number) :
      Writes (.node .primary last (.sigFig t.text none)) [wave, t]
  | sigFigMeasure {last : Bool} {opening wave t first closing : Token} {unit : String}
      {tokens : List Token} (hopening : opening.Is .mark "(") (hwave : wave.Is .mark "~")
      (ht : t.kind = .number) (hunit : WritesUnit unit (first :: tokens))
      (hfirst : isWord "dB" first = false ∧ isWord "db" first = false) (hclosing : closing.Is .mark ")") :
      Writes (.node .primary last (.sigFig t.text (some unit)))
        (opening :: wave :: t :: first :: (tokens ++ [closing]))
  | twiddle {last : Bool} {n : Node} {tokens : List Token} (h : WritesTwiddle n tokens) :
      Writes (.node .primary last n) tokens
  | identifier {last : Bool} {t : Token} (ht : isFreeName t = true) :
      Writes (.node .primary last (.identifier t.text)) [t]
  | callNone {last : Bool} {name opening closing : Token} (hname : isCallName name = true)
      (hopening : opening.Is .mark "(") (hclosing : closing.Is .mark ")") :
      Writes (.node .primary last (.call name.text [])) [name, opening, closing]
  | call {last : Bool} {name opening closing : Token} {nodes : List Node} {tokens : List Token}
      (hname : isCallName name = true) (hopening : opening.Is .mark "(")
      (h : Writes (.arguments nodes) tokens) (hclosing : closing.Is .mark ")") :
      Writes (.node .primary last (.call name.text nodes)) (name :: opening :: (tokens ++ [closing]))
  | set {last : Bool} {opening closing : Token} {values weights : List Node} {tokens : List Token}
      (hopening : opening.Is .mark "\x7b") (h : Writes (.pairs values weights) tokens)
      (hclosing : closing.Is .mark "\x7d") :
      Writes (.node .primary last (.weightedSet values weights none)) (opening :: (tokens ++ [closing]))
  | binding {bare : Bool} {word name sign between : Token} {value body : Node} {tokens rest : List Token}
      (hword : word.Is .name "let") (hname : isFreeName name = true) (hsign : sign.Is .mark "=")
      (hvalue : Writes (.node .expression bare value) tokens) (hbetween : between.Is .name "in")
      (hbody : Writes (.node .expression true body) rest) :
      Writes (.node .primary true (.letBinding name.text value body))
        (word :: name :: sign :: (tokens ++ between :: rest))
  | choice {bare bare' : Bool} {word first second : Token} {condition yes no : Node}
      {tokens middle rest : List Token} (hword : word.Is .name "if")
      (hcondition : Writes (.node .expression bare condition) tokens) (hfirst : first.Is .name "then")
      (hyes : Writes (.node .expression bare' yes) middle) (hsecond : second.Is .name "else")
      (hno : Writes (.node .expression true no) rest) :
      Writes (.node .primary true (.ifExpression condition yes no))
        (word :: (tokens ++ first :: (middle ++ second :: rest)))
  | twiddled {last : Bool} {n twiddle : Node} {tokens rest : List Token}
      (h : Writes (.node .twiddled false n) tokens) (htwiddle : WritesTwiddle twiddle rest) :
      Writes (.node .twiddled last (.binary .multiply n twiddle)) (tokens ++ rest)
  | power {last : Bool} {base exponent : Node} {hat : Token} {tokens rest : List Token}
      (hbase : Writes (.node .twiddled false base) tokens) (hhat : isMark ["^", "**"] hat = true)
      (hexponent : Writes (.node .unary last exponent) rest) :
      Writes (.node .power last (.binary .power base exponent)) (tokens ++ hat :: rest)
  | negate {last : Bool} {n : Node} {minus : Token} {tokens : List Token} (hminus : minus.Is .mark "-")
      (h : Writes (.node .unary last n) tokens) :
      Writes (.node .unary last (.unary .negate n)) (minus :: tokens)
  | range {last : Bool} {left right : Node} {make : Node → Node → Node} {tokens marks rest : List Token}
      (hleft : Writes (.node .unary false left) tokens) (hmarks : WritesRange make marks)
      (hright : Writes (.node .unary last right) rest) :
      Writes (.node .range last (make left right)) (tokens ++ (marks ++ rest))
  | term {last : Bool} {op : BinaryOperator} {left right : Node} {mark : Token} {tokens rest : List Token}
      (hleft : Writes (.node .term false left) tokens) (hop : op = .multiply ∨ op = .divide)
      (hmark : mark.Is .mark op.text) (hright : Writes (.node .range last right) rest) :
      Writes (.node .term last (.binary op left right)) (tokens ++ mark :: rest)
  | sum {last : Bool} {op : BinaryOperator} {left right : Node} {mark : Token} {tokens rest : List Token}
      (hleft : Writes (.node .additive false left) tokens) (hop : op = .add ∨ op = .subtract)
      (hmark : mark.Is .mark op.text) (hright : Writes (.node .term last right) rest) :
      Writes (.node .additive last (.binary op left right)) (tokens ++ mark :: rest)
  | comparison {last : Bool} {c : Comparison} {left right : Node} {mark : Token}
      {tokens rest : List Token} (hleft : Writes (.node .additive false left) tokens)
      (hmark : mark.Is .mark c.text) (hright : Writes (.node .additive last right) rest) :
      Writes (.node .comparison last (.binary (.compare c) left right)) (tokens ++ mark :: rest)
  | conversion {last : Bool} {n : Node} {sign target : Token} {tokens : List Token}
      (h : Writes (.node .expression false n) tokens) (hsign : sign.Is .mark "->" ∨ sign.Is .name "as")
      (htarget : isFreeName target = true ∨ target.kind = .label) :
      Writes (.node .expression last (.conversion n target.text)) (tokens ++ [sign, target])
  | argument {bare : Bool} {n : Node} {tokens : List Token} (h : Writes (.node .expression bare n) tokens) :
      Writes (.arguments [n]) tokens
  | arguments {bare : Bool} {n : Node} {nodes : List Node} {comma : Token} {tokens rest : List Token}
      (h : Writes (.node .expression bare n) tokens) (hcomma : comma.Is .mark ",")
      (hrest : Writes (.arguments nodes) rest) : Writes (.arguments (n :: nodes)) (tokens ++ comma :: rest)
  | pair {bare bare' : Bool} {value weight : Node} {colon : Token} {tokens rest : List Token}
      (hvalue : Writes (.node .additive bare value) tokens) (hcolon : colon.Is .mark ":")
      (hweight : Writes (.node .additive bare' weight) rest) :
      Writes (.pairs [value] [weight]) (tokens ++ colon :: rest)
  | pairs {bare bare' : Bool} {value weight : Node} {values weights : List Node} {colon comma : Token}
      {tokens middle rest : List Token} (hvalue : Writes (.node .additive bare value) tokens)
      (hcolon : colon.Is .mark ":") (hweight : Writes (.node .additive bare' weight) middle)
      (hcomma : comma.Is .mark ",") (hrest : Writes (.pairs values weights) rest) :
      Writes (.pairs (value :: values) (weight :: weights)) (tokens ++ colon :: (middle ++ comma :: rest))

end TokenReader

end Ballpark
