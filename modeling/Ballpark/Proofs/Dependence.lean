import Ballpark.Proofs.ProgramShape
import Ballpark.Session.Run

/-!
# What depends on a variable

An expression mentions the variables that it holds free, the labels in the texts of its units, and what
the bodies of the functions that it calls mention beside their parameters (`Node.Mentions`). Names that a
binding or a call binds are no mentions of the variables they hide, also in the bodies of functions called
below, for these see the names that their callers have bound. What a program assigns to or defines by an
expression depends on what the expression mentions (`Dependent`).
-/

namespace Ballpark

/-- What an expression can mention: a variable, or a unit under its label. -/
inductive Item where
  | variable (name : String)
  | label (name : String)

/-- Does the text of a unit hold a label? -/
def UnitMentions (R : Type) [Scalar R] (label text : String) : Prop :=
  ∃ (unit : CompoundUnit R) (scale : R), CompoundUnit.ofText text = .ok (unit, scale) ∧
    ∃ t ∈ unit.terms, t.unit.base = label

namespace Node

/-- Does an expression mention an item, given the functions that it may call? -/
inductive Mentions (R : Type) [Scalar R] (functions : List FunctionDefinition) : Item → Node → Prop
  | name {name : String} : Mentions R functions (.variable name) (.identifier name)
  | unit {n : Node} {text label : String} (htext : n.unitText? = some text)
      (hlabel : UnitMentions R label text) : Mentions R functions (.label label) n
  | target {n : Node} {target : String} :
      Mentions R functions (.label (Text.trimText target)) (.conversion n target)
  | operand {item : Item} {n m : Node} (hm : m ∈ n.operands) (h : Mentions R functions item m) :
      Mentions R functions item n
  | inner {item : Item} {name : String} {bound inner : Node} (h : Mentions R functions item inner)
      (hname : item ≠ .variable name) : Mentions R functions item (.letBinding name bound inner)
  | body {item : Item} {name : String} {arguments : List Node} {function : FunctionDefinition}
      (hfunction : function ∈ functions) (hname : function.name = name)
      (h : Mentions R functions item function.body)
      (hparameters : ∀ p ∈ function.parameters, item ≠ .variable p) :
      Mentions R functions item (.call name arguments)

/-- The function that a statement defines. -/
def definedFunction? : Node → Option FunctionDefinition
  | .functionDefinition name parameters body => some ⟨name, parameters, body⟩
  | _ => none

/-- The functions that a program defines. -/
def definedFunctions (statements : List Node) : List FunctionDefinition :=
  statements.filterMap definedFunction?

theorem definedFunction?_of_isOperation {n : Node} (h : n.isOperation = true) :
    n.definedFunction? = none := by
  cases n with
  | functionDefinition => cases h
  | _ => rfl

/-- The bodies of a program's functions are expressions. -/
theorem isExpression_of_mem_definedFunctions {statements : List Node}
    (h : ∀ n ∈ statements, IsStatement n) {function : FunctionDefinition}
    (hfunction : function ∈ definedFunctions statements) : IsExpression function.body := by
  obtain ⟨n, hn, hdefined⟩ := List.mem_filterMap.mp hfunction
  cases h n hn with
  | functionDefinition hbody =>
    cases hdefined
    exact hbody
  | assignment | unitDefinition => cases hdefined
  | expression hexpression =>
    cases hexpression with
    | letBinding => cases hdefined
    | operation hoperation =>
      rw [definedFunction?_of_isOperation hoperation] at hdefined
      cases hdefined

end Node

/-- What depends on a variable: the variable itself, what a statement assigns to by an expression that
mentions something dependent, and units that are defined by one. -/
inductive Dependent (R : Type) [Scalar R] (statements : List Node) (name : String) : Item → Prop
  | itself : Dependent R statements name (.variable name)
  | assigned {other : String} {value : Node} {item : Item} (h : .assignment other value ∈ statements)
      (hmentions : value.Mentions R (Node.definedFunctions statements) item)
      (hitem : Dependent R statements name item) : Dependent R statements name (.variable other)
  | defined {label : String} {count : Decimal} {value : Node} {item : Item}
      (h : .unitDefinition label count value ∈ statements)
      (hmentions : value.Mentions R (Node.definedFunctions statements) item)
      (hitem : Dependent R statements name item) : Dependent R statements name (.label label)

/-! ## Units that agree on what is mentioned -/

namespace Session

variable {R : Type} [Scalar R] {units units' : Bindings (Quantity R)}

theorem foldlM_substitute_congr {terms : List (UnitTerm R)}
    (h : ∀ t ∈ terms, units.get? t.unit.base = units'.get? t.unit.base) (q : Quantity R) :
    terms.foldlM (substitute units) q = terms.foldlM (substitute units') q := by
  induction terms generalizing q with
  | nil => rfl
  | cons t rest ih =>
    obtain ⟨ht, hrest⟩ := List.forall_mem_cons.mp h
    rw [List.foldlM_cons, List.foldlM_cons, substitute, substitute, ht]
    exact bind_congr fun p => ih hrest p

/-- The unit of a text depends on the definitions of the labels in the text only. -/
theorem unitQuantity_congr {text : String}
    (h : ∀ label, UnitMentions R label text → units.get? label = units'.get? label) :
    unitQuantity units text = unitQuantity units' text := by
  rw [unitQuantity, unitQuantity]
  rcases hread : (CompoundUnit.ofText text : Except (Fault R) _) with e | ⟨unit, scale⟩
  · rfl
  · have hget : ∀ t ∈ unit.terms, units.get? t.unit.base = units'.get? t.unit.base :=
      fun t ht => h _ ⟨unit, scale, hread, t, ht, rfl⟩
    have hfilter : (unit.terms.filter fun t => !units.contains t.unit.base) =
        unit.terms.filter fun t => !units'.contains t.unit.base :=
      List.filter_congr fun t ht => by rw [Bindings.contains, Bindings.contains, hget t ht]
    show unit.terms.foldlM (substitute units) _ = unit.terms.foldlM (substitute units') _
    rw [hfilter]
    exact foldlM_substitute_congr hget _

section

variable {unit : Option String}
  (h : ∀ text, written? unit = some text → ∀ label, UnitMentions R label text →
    units.get? label = units'.get? label)
include h

theorem inUnit_congr (q : Quantity R) : inUnit units q unit = inUnit units' q unit := by
  rw [inUnit, inUnit]
  rcases hunit : written? unit with _ | text
  · rfl
  · simp only [unitQuantity_congr (h text hunit)]

theorem literal_congr (x : R) : literal units x unit = literal units' x unit := by
  rw [literal, literal]
  rcases hunit : written? unit with _ | text
  · rfl
  · simp only [unitQuantity_congr (h text hunit)]

theorem strictBounds_congr (node : Node) (low high : Quantity R) :
    strictBounds units node low high unit = strictBounds units' node low high unit := by
  rw [strictBounds, strictBounds]
  rcases hunit : written? unit with _ | text
  · rfl
  · simp only [trailingBounds, unitQuantity_congr (h text hunit)]

theorem looseBounds_congr (first second : Quantity R) (preferSecond : Bool) :
    looseBounds units first second preferSecond unit = looseBounds units' first second preferSecond unit := by
  rw [looseBounds, looseBounds]
  rcases hunit : written? unit with _ | text
  · rfl
  · simp only [trailingBounds, unitQuantity_congr (h text hunit)]

end

theorem convertTo_congr {target : String}
    (h : units.get? (Text.trimText target) = units'.get? (Text.trimText target)) (q : Quantity R) :
    convertTo units q target = convertTo units' q target := by
  rw [convertTo, convertTo, h]

end Session

end Ballpark
