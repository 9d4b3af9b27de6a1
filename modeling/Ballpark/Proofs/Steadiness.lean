import Ballpark.Proofs.ConstantMemory
import Ballpark.Proofs.Dependence
import Ballpark.Proofs.SamplerPace
import Mathlib.Data.Set.Insert

/-!
# Programs that draw the same

Which programs draw the same random numbers whatever the values are that something holds. Most nodes do:
operators draw nothing, and ranges draw one number for each particle (`Node.isPaced`). There are three
exceptions. A choice evaluates one branch or both, depending on its condition; the gamma family and
counts draw as much as their parameters make them; and a call draws what the body of its function draws.
So a program is steady if a condition that is not known holds branches apart that draw nothing, if the
parameters of such samplers are known, and if the bodies of functions are steady under what is known where
they are called (`SteadyProgram`).
-/

namespace Ballpark

namespace Node

variable (R : Type) [Scalar R] (functions : List FunctionDefinition)

/-- Does an expression mention nothing of some items? -/
def Avoids (items : Set Item) (n : Node) : Prop :=
  ∀ item, n.Mentions R functions item → item ∉ items

/-- Is nothing drawn at a node itself? -/
def isPlain : Node → Bool
  | .number .. | .unit _ | .binary .. | .unary .. | .conversion .. | .ifExpression .. => true
  | _ => false

/-- Does a node itself draw the same whatever the values of its operands are? -/
def isPaced : Node → Bool
  | .number .. | .sigFig .. | .identifier _ | .unit _ | .binary .. | .unary .. | .range ..
  | .uniformRange .. | .normalRange .. | .weightedSet .. | .percentTwiddle _ | .decibelTwiddle _
  | .conversion .. => true
  | _ => false

/-- An expression that draws nothing, given functions whose bodies draw nothing. -/
inductive Quiet (quiet : Set FunctionDefinition) : Node → Prop
  | plain {n : Node} (hn : n.isPlain = true) (h : ∀ m ∈ n.operands, Quiet quiet m) : Quiet quiet n
  | name {name : String} (h : Constant.NotDrawn R name) : Quiet quiet (.identifier name)
  | letBinding {name : String} {bound inner : Node} (hbound : Quiet quiet bound)
      (hinner : Quiet quiet inner) : Quiet quiet (.letBinding name bound inner)
  | call {name : String} {arguments : List Node} (harguments : ∀ m ∈ arguments, Quiet quiet m)
      (hbuiltin : Distribution.ofName? name = none)
      (hdefined : ∀ f ∈ functions, f.name = name → f ∈ quiet) : Quiet quiet (.call name arguments)

/-- What is known of the functions of a program: which of them draw nothing, and under which unknown
items which of them draw the same. -/
structure Signature where
  quiet : Set FunctionDefinition
  steady : Set (FunctionDefinition × Set Item)

/-- Inside a call, what is unknown outside stays so unless a parameter hides it, and so are parameters
whose arguments are not known. -/
structure Covers (apart : Set Item) (function : FunctionDefinition) (arguments : List Node)
    (inner : Set Item) : Prop where
  outside : ∀ item ∈ apart, item ∈ inner ∨ ∃ p ∈ function.parameters, item = .variable p
  parameters : ∀ e ∈ function.parameters.zip arguments, e.2.Avoids R functions apart ∨ .variable e.1 ∈ inner

/-- An expression that draws the same whatever the values of some items are. -/
inductive Steady (signature : Signature) : Set Item → Node → Prop
  | avoids {apart : Set Item} {n : Node} (h : n.Avoids R functions apart) : Steady signature apart n
  | paced {apart : Set Item} {n : Node} (hn : n.isPaced = true)
      (h : ∀ m ∈ n.operands, Steady signature apart m) : Steady signature apart n
  | letBinding {apart : Set Item} {name : String} {bound inner : Node} (hbound : Steady signature apart bound)
      (hinner : Steady signature (insert (.variable name) apart) inner) :
      Steady signature apart (.letBinding name bound inner)
  | letKnown {apart : Set Item} {name : String} {bound inner : Node}
      (hbound : bound.Avoids R functions apart)
      (hinner : Steady signature (apart \ {.variable name}) inner) :
      Steady signature apart (.letBinding name bound inner)
  | choice {apart : Set Item} {condition yes no : Node} (hcondition : condition.Avoids R functions apart)
      (hyes : Steady signature apart yes) (hno : Steady signature apart no) :
      Steady signature apart (.ifExpression condition yes no)
  | quietChoice {apart : Set Item} {condition yes no : Node} (hcondition : Steady signature apart condition)
      (hyes : yes.Quiet R functions signature.quiet) (hno : no.Quiet R functions signature.quiet) :
      Steady signature apart (.ifExpression condition yes no)
  | call {apart : Set Item} {name : String} {arguments : List Node}
      (harguments : ∀ m ∈ arguments, Steady signature apart m)
      (hbuiltin : ∀ d, Distribution.ofName? name = some d → d.isPaced = true)
      (hdefined : ∀ f ∈ functions, f.name = name →
        ∃ inner, (f, inner) ∈ signature.steady ∧ Covers R functions apart f arguments inner) :
      Steady signature apart (.call name arguments)

/-- The bodies of functions are as the signature says. -/
structure Signature.Sound (signature : Signature) : Prop where
  quiet : ∀ f ∈ signature.quiet, f.body.Quiet R functions signature.quiet
  steady : ∀ e ∈ signature.steady, e.1.body.Steady R functions signature e.2

/-- An expression of nodes that draw the same, without choices and calls. -/
inductive Even : Node → Prop
  | paced {n : Node} (hn : n.isPaced = true) (h : ∀ m ∈ n.operands, Even m) : Even n
  | letBinding {name : String} {bound inner : Node} (hbound : Even bound) (hinner : Even inner) :
      Even (.letBinding name bound inner)

/-- Such an expression draws the same whatever is unknown. -/
theorem Even.steady {R : Type} [Scalar R] {functions : List FunctionDefinition} {n : Node} (h : n.Even)
    (signature : Signature) (apart : Set Item) : n.Steady R functions signature apart := by
  induction h generalizing apart with
  | paced hn _ ih => exact .paced hn fun m hm => ih m hm apart
  | letBinding _ _ ihbound ihinner => exact .letBinding (ihbound apart) (ihinner _)

/-- The expression that a statement evaluates. -/
def evaluated? : Node → Option Node
  | .assignment _ value | .unitDefinition _ _ value => some value
  | .functionDefinition .. => none
  | n => some n

end Node

/-- A program in which every statement draws the same whatever the value of a variable is. -/
def SteadyProgram (R : Type) [Scalar R] (statements : List Node) (name : String) : Prop :=
  ∃ signature : Node.Signature, signature.Sound R (Node.definedFunctions statements) ∧
    ∀ n ∈ statements, ∀ e, n.evaluated? = some e →
      e.Steady R (Node.definedFunctions statements) signature {item | Dependent R statements name item}

/-- A program without choices and calls is steady, whatever variable is pinned. -/
theorem SteadyProgram.of_even {R : Type} [Scalar R] {statements : List Node}
    (h : ∀ n ∈ statements, ∀ e, n.evaluated? = some e → e.Even) (name : String) :
    SteadyProgram R statements name :=
  ⟨⟨∅, ∅⟩, ⟨fun _ hf => hf.elim, fun _ hf => hf.elim⟩, fun n hn e he => (h n hn e he).steady _ _⟩

end Ballpark
