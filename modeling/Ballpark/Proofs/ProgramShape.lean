import Ballpark.Proofs.UnitTextReading

/-!
# The shape of programs

What a program's text is read as is a list of statements: assignments, definitions of units and of
functions, and expressions. None of them stands inside another: what an assignment or a definition holds
is an expression (`Node.isStatement_of_read`). And every text in the tree that may be read as a unit is
made of the program's own words (`Node.isWritten_of_read`).
-/

namespace Ballpark

namespace Node

/-- The nodes that are evaluated under the same names as the node itself. -/
def operands : Node → List Node
  | .binary _ left right | .range left right _ | .uniformRange left right _
  | .normalRange left right _ | .betaOf left right | .betaAgainst left right => [left, right]
  | .unary _ operand | .conversion operand _ => [operand]
  | .weightedSet values weights _ => values ++ weights
  | .call _ arguments => arguments
  | .letBinding _ bound _ => [bound]
  | .ifExpression condition yes no => [condition, yes, no]
  | _ => []

/-- The nodes that stand in a node. -/
def parts : Node → List Node
  | .letBinding _ bound inner => [bound, inner]
  | .assignment _ value | .unitDefinition _ _ value => [value]
  | .functionDefinition _ _ body => [body]
  | .program statements => statements
  | n => n.operands

/-- Is the node an expression, but for its operands, that binds no name? -/
def isOperation : Node → Bool
  | .letBinding .. | .assignment .. | .unitDefinition .. | .functionDefinition .. | .program _
  | .foreign _ => false
  | _ => true

/-- A node in which no statement stands. -/
inductive IsExpression : Node → Prop
  | operation {n : Node} (hn : n.isOperation = true) (h : ∀ m ∈ n.operands, IsExpression m) :
      IsExpression n
  | letBinding {name : String} {bound inner : Node} (hbound : IsExpression bound)
      (hinner : IsExpression inner) : IsExpression (.letBinding name bound inner)

namespace IsExpression

theorem operand {n m : Node} (h : IsExpression n) (hm : m ∈ n.operands) : IsExpression m := by
  cases h with
  | operation _ h => exact h m hm
  | letBinding hbound => exact List.mem_singleton.mp hm ▸ hbound

theorem inner {name : String} {bound inner : Node} (h : IsExpression (.letBinding name bound inner)) :
    IsExpression inner := by
  cases h with
  | operation hn => cases hn
  | letBinding _ hinner => exact hinner

end IsExpression

/-- A statement of a program. -/
inductive IsStatement : Node → Prop
  | expression {n : Node} (h : IsExpression n) : IsStatement n
  | assignment {name : String} {value : Node} (h : IsExpression value) :
      IsStatement (.assignment name value)
  | unitDefinition {name : String} {count : Decimal} {value : Node} (h : IsExpression value) :
      IsStatement (.unitDefinition name count value)
  | functionDefinition {name : String} {parameters : List String} {body : Node} (h : IsExpression body) :
      IsStatement (.functionDefinition name parameters body)

/-- A property of a node and of all that stands in it. -/
inductive Throughout (P : Node → Prop) : Node → Prop
  | mk {n : Node} (h : P n) (hparts : ∀ m ∈ n.parts, Throughout P m) : Throughout P n

theorem Throughout.here {P : Node → Prop} {n : Node} (h : n.Throughout P) : P n := by
  cases h with
  | mk h => exact h

theorem Throughout.part {P : Node → Prop} {n m : Node} (h : n.Throughout P) (hm : m ∈ n.parts) :
    m.Throughout P := by
  cases h with
  | mk _ hparts => exact hparts m hm

theorem parts_of_isOperation {n : Node} (h : n.isOperation = true) : n.parts = n.operands := by
  cases n <;> first | rfl | cases h

theorem operands_subset_parts (n : Node) : n.operands ⊆ n.parts := by
  cases n with
  | letBinding => exact List.cons_subset_cons _ (List.nil_subset _)
  | assignment | unitDefinition | functionDefinition | program => exact List.nil_subset _
  | _ => exact List.Subset.refl _

theorem sizeOf_lt_of_mem_parts {n m : Node} (h : m ∈ n.parts) : sizeOf m < sizeOf n := by
  cases n with
  | call name arguments =>
    have := List.sizeOf_lt_of_mem (show m ∈ arguments from h)
    simp only [Node.call.sizeOf_spec]
    omega
  | program statements =>
    have := List.sizeOf_lt_of_mem (show m ∈ statements from h)
    simp only [Node.program.sizeOf_spec]
    omega
  | weightedSet values weights unit =>
    simp only [Node.weightedSet.sizeOf_spec]
    rcases List.mem_append.mp h with h | h
    all_goals
      have := List.sizeOf_lt_of_mem h
      omega
  | _ =>
    simp only [parts, operands, List.mem_cons, List.not_mem_nil, or_false] at h
    try rcases h with rfl | rfl | rfl
    all_goals simp +arith

/-- Induction on what stands in a node. -/
@[elab_as_elim]
theorem parts_induction {P : Node → Prop} (step : ∀ n : Node, (∀ m ∈ n.parts, P m) → P n) (n : Node) : P n :=
  step n fun m _ => parts_induction step m
termination_by sizeOf n
decreasing_by exact sizeOf_lt_of_mem_parts ‹_›

/-! ## Texts at nodes -/

theorem isWritten_of_blank {n : Node} (h : n.readTexts = []) : n.IsWritten :=
  fun _ htext => absurd (h ▸ htext) List.not_mem_nil

theorem isWritten_of_unit {n : Node} {unit : Option String} (hn : n.unitText? = Session.written? unit)
    (hread : n.readTexts = n.unitText?.toList)
    (hunit : ∀ text, unit = some text → TokenReader.IsUnitText text) : n.IsWritten := by
  intro text htext
  rw [hread, Option.mem_toList] at htext
  obtain ⟨parts, hparts, rfl⟩ := hunit text (Option.eq_some_of_filter_eq_some (hn ▸ htext))
  exact ⟨parts, .unit htext hparts⟩

/-- An expression whose texts are made of parts. -/
structure IsWrittenExpression (n : Node) : Prop where
  isExpression : IsExpression n
  texts : n.Throughout IsWritten

namespace IsWrittenExpression

theorem operation {n : Node} (hn : n.isOperation = true) (hw : n.IsWritten)
    (h : ∀ m ∈ n.operands, IsWrittenExpression m) : IsWrittenExpression n where
  isExpression := .operation hn fun m hm => (h m hm).isExpression
  texts := .mk hw fun m hm => (h m (parts_of_isOperation hn ▸ hm)).texts

theorem letBinding {name : String} {bound inner : Node} (hbound : IsWrittenExpression bound)
    (hinner : IsWrittenExpression inner) : IsWrittenExpression (.letBinding name bound inner) where
  isExpression := .letBinding hbound.isExpression hinner.isExpression
  texts := .mk (isWritten_of_blank rfl) fun m hm => by
    rcases List.mem_pair.mp hm with rfl | rfl
    · exact hbound.texts
    · exact hinner.texts

theorem leaf {n : Node} (hn : n.isOperation = true) (hw : n.IsWritten) (h : n.operands = []) :
    IsWrittenExpression n :=
  .operation hn hw fun _ hm => absurd (h ▸ hm) List.not_mem_nil

theorem single {n m : Node} (hn : n.isOperation = true) (hw : n.IsWritten) (h : n.operands = [m])
    (hm : IsWrittenExpression m) : IsWrittenExpression n :=
  .operation hn hw fun _ hk => List.mem_singleton.mp (h ▸ hk) ▸ hm

theorem pair {n left right : Node} (hn : n.isOperation = true) (hw : n.IsWritten)
    (h : n.operands = [left, right]) (hleft : IsWrittenExpression left)
    (hright : IsWrittenExpression right) : IsWrittenExpression n := by
  refine .operation hn hw fun m hm => ?_
  rw [h, List.mem_cons, List.mem_singleton] at hm
  rcases hm with rfl | rfl
  · exact hleft
  · exact hright

end IsWrittenExpression

/-- A statement whose texts are made of parts. -/
structure IsWrittenStatement (n : Node) : Prop where
  isStatement : IsStatement n
  texts : n.Throughout IsWritten

/-- What stands in a statement is an expression. -/
theorem IsStatement.part {n m : Node} (h : IsStatement n) (hm : m ∈ n.parts) : IsExpression m := by
  cases h with
  | expression h =>
    cases h with
    | operation hn hoperands => exact hoperands m (parts_of_isOperation hn ▸ hm)
    | letBinding hbound hinner =>
      rcases List.mem_pair.mp hm with rfl | rfl
      · exact hbound
      · exact hinner
  | assignment h | unitDefinition h | functionDefinition h => exact List.mem_singleton.mp hm ▸ h

theorem IsWrittenStatement.part {n m : Node} (h : IsWrittenStatement n) (hm : m ∈ n.parts) :
    IsWrittenExpression m :=
  ⟨h.isStatement.part hm, h.texts.part hm⟩

theorem IsWrittenExpression.statement {n : Node} (h : IsWrittenExpression n) : IsWrittenStatement n :=
  ⟨.expression h.isExpression, h.texts⟩

/-- A statement that stores an expression. -/
theorem IsWrittenStatement.single {n value : Node} (hn : IsStatement n) (hblank : n.readTexts = [])
    (hparts : n.parts = [value]) (h : IsWrittenExpression value) : IsWrittenStatement n :=
  ⟨hn, .mk (isWritten_of_blank hblank) fun _ hm => List.mem_singleton.mp (hparts ▸ hm) ▸ h.texts⟩

end Node

namespace TokenReader

open Node

theorem gives_tooDeep {α : Type} {P : α → Prop} : Gives (tooDeep : TokenReader α) P :=
  .failHere _

theorem gives_twiddle : Gives twiddle IsWrittenExpression := by
  refine gives_after fun _ => gives_after fun number => gives_after fun mark => .pure ?_
  split
  · exact .leaf rfl (isWritten_of_blank rfl) rfl
  · exact .leaf rfl (isWritten_of_blank rfl) rfl

theorem isWritten_identifier {t : Token} (ht : t.IsLexed) (h : t.kind = .name) :
    (Node.identifier t.text).IsWritten := by
  intro text htext
  obtain ⟨n, hn⟩ := exists_name ht (.inr h)
  rw [List.mem_singleton.mp htext, ← hn]
  exact ⟨_, .name⟩

theorem isWritten_conversion {target : String} (h : IsTargetText target) (n : Node) :
    (Node.conversion n target).IsWritten := by
  intro text htext
  obtain ⟨parts, hsome, rfl⟩ := h
  rw [List.mem_singleton.mp htext]
  exact ⟨parts, .target hsome⟩

theorem isWritten_unit {text : String} (h : IsUnitText text) : (Node.unit text).IsWritten := by
  intro text htext
  obtain ⟨parts, hparts, rfl⟩ := h
  rw [List.mem_singleton.mp htext]
  exact ⟨parts, .unit rfl hparts⟩

/-- What the readers of expressions give within a limit. -/
structure GivesExpressions (limit : Nat) : Prop where
  expression : Gives (expression limit) IsWrittenExpression
  conversions : ∀ n, IsWrittenExpression n → Gives (conversions limit n) IsWrittenExpression
  comparison : Gives (comparison limit) IsWrittenExpression
  additive : Gives (additive limit) IsWrittenExpression
  additiveRest : ∀ n, IsWrittenExpression n → Gives (additiveRest limit n) IsWrittenExpression
  term : Gives (term limit) IsWrittenExpression
  termRest : ∀ n, IsWrittenExpression n → Gives (termRest limit n) IsWrittenExpression
  range : Gives (range limit) IsWrittenExpression
  unary : Gives (unary limit) IsWrittenExpression
  power : Gives (power limit) IsWrittenExpression
  twiddled : Gives (twiddled limit) IsWrittenExpression
  twiddledRest : ∀ n, IsWrittenExpression n → Gives (twiddledRest limit n) IsWrittenExpression
  primary : Gives (primary limit) IsWrittenExpression
  arguments : Gives (arguments limit) fun nodes => ∀ n ∈ nodes, IsWrittenExpression n
  pairs : Gives (pairs limit) fun nodes => ∀ n ∈ nodes.1 ++ nodes.2, IsWrittenExpression n

namespace GivesExpressions

variable {limit : Nat}

theorem zero : GivesExpressions 0 where
  expression := gives_tooDeep
  conversions _ _ := gives_tooDeep
  comparison := gives_tooDeep
  additive := gives_tooDeep
  additiveRest _ _ := gives_tooDeep
  term := gives_tooDeep
  termRest _ _ := gives_tooDeep
  range := gives_tooDeep
  unary := gives_tooDeep
  power := gives_tooDeep
  twiddled := gives_tooDeep
  twiddledRest _ _ := gives_tooDeep
  primary := gives_tooDeep
  arguments := gives_tooDeep
  pairs := gives_tooDeep

theorem range_succ (h : GivesExpressions limit) :
    Gives (TokenReader.range (limit + 1)) IsWrittenExpression := by
  rw [TokenReader.range]
  refine h.unary.bind fun left hleft => gives_after fun t => ?_
  -- a range reads the unit behind it
  have hrange : ∀ make : Node → Option String → Node, (∀ right unit, (make right unit).isOperation = true ∧
      (make right unit).unitText? = Session.written? unit ∧
      (make right unit).readTexts = (make right unit).unitText?.toList ∧
      (make right unit).operands = [left, right]) → Gives (do
        skip 1
        let right ← TokenReader.unary limit
        return make right (← trailingUnit)) IsWrittenExpression := by
    intro make hmake
    refine gives_after fun _ => h.unary.bind fun right hright => ?_
    refine gives_trailingUnit.bind fun unit hunit => .pure ?_
    obtain ⟨hoperation, htext, hread, hoperands⟩ := hmake right unit
    exact .pair hoperation (isWritten_of_unit htext hread hunit) hoperands hleft hright
  refine .ite (fun _ => hrange _ fun _ _ => ⟨rfl, rfl, rfl, rfl⟩) fun _ => ?_
  refine .ite (fun _ => hrange _ fun _ _ => ⟨rfl, rfl, rfl, rfl⟩) fun _ => ?_
  refine .ite (fun _ => hrange _ fun _ _ => ⟨rfl, rfl, rfl, rfl⟩) fun _ => ?_
  refine .ite (fun _ => ?_) fun _ => .ite (fun _ => ?_) fun _ => .pure hleft
  · exact gives_after fun _ => gives_after fun _ => h.unary.bind fun right hright =>
      .pure (.pair rfl (isWritten_of_blank rfl) rfl hleft hright)
  · exact gives_after fun _ => h.unary.bind fun right hright =>
      .pure (.pair rfl (isWritten_of_blank rfl) rfl hleft hright)

/-- A name that is no keyword: a call or a name of its own. -/
theorem gives_name (h : GivesExpressions limit) {t next : Token} (ht : t.IsLexed) (hname : t.kind = .name) :
    Gives (do
      skip 1
      if isMark ["("] next then
        skip 1
        if ← atMark [")"] then
          skip 1
          return .call t.text []
        else
          let found ← TokenReader.arguments limit
          expectMark ")"
          return .call t.text found
      else return .identifier t.text) IsWrittenExpression := by
  refine gives_after fun _ => .ite (fun _ => ?_) fun _ => ?_
  · refine gives_after fun _ => gives_after fun closed => .ite (fun _ => ?_) fun _ => ?_
    · exact gives_after fun _ => .pure (.leaf rfl (isWritten_of_blank rfl) rfl)
    · exact h.arguments.bind fun found hfound => gives_after fun _ =>
        .pure (.operation rfl (isWritten_of_blank rfl) hfound)
  · exact .pure (.leaf rfl (isWritten_identifier ht hname) rfl)

theorem primary_succ (h : GivesExpressions limit) :
    Gives (TokenReader.primary (limit + 1)) IsWrittenExpression := by
  rw [TokenReader.primary]
  intro tokens htokens
  refine .peeked 0 (.peeked 1 ?_)
  have ht := isLexed_tokenAt htokens 0
  refine .ite (fun _ => ?_) fun _ => .ite (fun hlabel => ?_) fun _ => .ite (fun _ => ?_) fun _ =>
    .ite (fun _ => ?_) fun _ => .ite (fun _ => ?_) fun _ => .ite (fun hname => ?_) fun _ =>
      Gives.failAt _ _ tokens htokens
  · refine .after htokens fun _ => gives_trailingUnit.bind fun unit hunit => .pure ?_
    exact .leaf rfl (isWritten_of_unit rfl rfl hunit) rfl
  · have hunit : isUnit (tokenAt tokens 0) = true := by rw [isUnit, hlabel, Bool.true_or]
    refine (gives_unitText htokens (isUnitName_of_isUnit ht hunit)).bind fun text htext => .pure ?_
    exact .leaf rfl (isWritten_unit htext) rfl
  · refine .after htokens fun isTwiddle => .ite (fun _ => gives_twiddle) fun _ => gives_after fun _ => ?_
    refine gives_after fun literal => .ite (fun _ => ?_) fun _ => .failAt _ _
    refine gives_after fun _ => gives_trailingUnit.bind fun unit hunit => .pure ?_
    exact .leaf rfl (isWritten_of_unit rfl rfl hunit) rfl
  · refine .after htokens fun _ => h.expression.bind fun inner hinner => gives_after fun _ => ?_
    -- the unit of what is enclosed starts at the token that has been looked at
    intro tokens htokens
    refine .peeked 0 (.ite (fun hunit => ?_) fun _ => Gives.pure hinner tokens htokens)
    have hname := isUnitName_of_isUnit (isLexed_tokenAt htokens 0) hunit
    refine (gives_unitText htokens hname).bind fun text htext => .pure ?_
    exact .pair rfl (isWritten_of_blank rfl) rfl hinner (.leaf rfl (isWritten_unit htext) rfl)
  · refine .after htokens fun _ => h.pairs.bind fun nodes hnodes => gives_after fun _ => ?_
    refine gives_trailingUnit.bind fun unit hunit => .pure ?_
    exact .operation rfl (isWritten_of_unit rfl rfl hunit) hnodes
  · refine .ite (fun _ => ?_) fun _ => .ite (fun _ => ?_) fun _ => .ite (fun _ => ?_) fun _ => ?_
    · refine .after htokens fun _ => gives_after fun name => gives_after fun _ => ?_
      refine h.expression.bind fun value hvalue => gives_after fun _ => ?_
      exact h.expression.bind fun body hbody => .pure (.letBinding hvalue hbody)
    · refine .after htokens fun _ => h.expression.bind fun condition hcondition => gives_after fun _ => ?_
      refine h.expression.bind fun yes hyes => gives_after fun _ => ?_
      refine h.expression.bind fun no hno => .pure (.operation rfl (isWritten_of_blank rfl) fun m hm => ?_)
      simp only [operands, List.mem_cons, List.not_mem_nil, or_false] at hm
      rcases hm with rfl | rfl | rfl
      · exact hcondition
      · exact hyes
      · exact hno
    · exact Gives.failAt _ _ tokens htokens
    · exact h.gives_name ht (beq_iff_eq.mp hname) tokens htokens

theorem pairs_succ (h : GivesExpressions limit) : Gives (TokenReader.pairs (limit + 1))
    fun nodes => ∀ n ∈ nodes.1 ++ nodes.2, IsWrittenExpression n := by
  rw [TokenReader.pairs]
  refine h.additive.bind fun value hvalue => gives_after fun _ => h.additive.bind fun weight hweight => ?_
  have hpair : ∀ n ∈ [value] ++ [weight], IsWrittenExpression n := by
    intro n hn
    simp only [List.singleton_append, List.mem_cons, List.not_mem_nil, or_false] at hn
    rcases hn with rfl | rfl
    · exact hvalue
    · exact hweight
  refine gives_after fun comma => .ite (fun _ => ?_) fun _ => .pure hpair
  refine gives_after fun _ => gives_after fun closed => .ite (fun _ => .pure hpair) fun _ => ?_
  refine h.pairs.bind fun nodes hnodes => .pure fun n hn => ?_
  simp only [List.cons_append, List.mem_cons, List.mem_append] at hn
  rcases hn with rfl | hn | rfl | hn
  · exact hvalue
  · exact hnodes n (List.mem_append_left _ hn)
  · exact hweight
  · exact hnodes n (List.mem_append_right _ hn)

theorem succ (h : GivesExpressions limit) : GivesExpressions (limit + 1) where
  expression := by
    rw [TokenReader.expression]
    exact h.comparison.bind fun n hn => h.conversions n hn
  conversions n hn := by
    rw [TokenReader.conversions]
    refine gives_after fun arrow => gives_after fun word => .ite (fun _ => ?_) fun _ => .pure hn
    exact gives_after fun _ => gives_conversionTarget.bind fun target htarget =>
      h.conversions _ (.single rfl (isWritten_conversion htarget n) rfl hn)
  comparison := by
    rw [TokenReader.comparison]
    refine h.additive.bind fun left hleft => gives_after fun t => .ite (fun _ => ?_) fun _ => .pure hleft
    exact gives_after fun _ => h.additive.bind fun right hright =>
      .pure (.pair rfl (isWritten_of_blank rfl) rfl hleft hright)
  additive := by
    rw [TokenReader.additive]
    exact h.term.bind fun n hn => h.additiveRest n hn
  additiveRest n hn := by
    rw [TokenReader.additiveRest]
    refine gives_after fun t => .ite (fun _ => ?_) fun _ => .pure hn
    exact gives_after fun _ => h.term.bind fun right hright =>
      h.additiveRest _ (.pair rfl (isWritten_of_blank rfl) rfl hn hright)
  term := by
    rw [TokenReader.term]
    exact h.range.bind fun n hn => h.termRest n hn
  termRest n hn := by
    rw [TokenReader.termRest]
    refine gives_after fun t => .ite (fun _ => ?_) fun _ => .pure hn
    exact gives_after fun _ => h.range.bind fun right hright =>
      h.termRest _ (.pair rfl (isWritten_of_blank rfl) rfl hn hright)
  range := h.range_succ
  unary := by
    rw [TokenReader.unary]
    refine gives_after fun t => .ite (fun _ => ?_) fun _ => .ite (fun _ => ?_) fun _ => h.power
    · exact gives_after fun _ => h.unary.bind fun operand hoperand =>
        .pure (.single rfl (isWritten_of_blank rfl) rfl hoperand)
    · exact gives_after fun _ => h.unary
  power := by
    rw [TokenReader.power]
    refine h.twiddled.bind fun base hbase => gives_after fun hat => .ite (fun _ => ?_) fun _ => .pure hbase
    exact gives_after fun _ => h.unary.bind fun exponent hexponent =>
      .pure (.pair rfl (isWritten_of_blank rfl) rfl hbase hexponent)
  twiddled := by
    rw [TokenReader.twiddled]
    exact h.primary.bind fun n hn => h.twiddledRest n hn
  twiddledRest n hn := by
    rw [TokenReader.twiddledRest]
    refine gives_after fun t => .ite (fun _ => ?_) fun _ => .pure hn
    exact gives_twiddle.bind fun m hm =>
      h.twiddledRest _ (.pair rfl (isWritten_of_blank rfl) rfl hn hm)
  primary := h.primary_succ
  arguments := by
    rw [TokenReader.arguments]
    refine h.expression.bind fun first hfirst => gives_after fun comma => .ite (fun _ => ?_) fun _ => .pure ?_
    · refine gives_after fun _ => h.arguments.bind fun nodes hnodes => .pure ?_
      exact List.forall_mem_cons.mpr ⟨hfirst, hnodes⟩
    · exact fun n hn => List.mem_singleton.mp hn ▸ hfirst
  pairs := h.pairs_succ

end GivesExpressions

/-- Induction on the limit. -/
theorem givesExpressions (limit : Nat) : GivesExpressions limit := by
  induction limit with
  | zero => exact .zero
  | succ limit ih => exact ih.succ

theorem gives_wholeExpression : Gives wholeExpression IsWrittenExpression :=
  gives_after fun _ => (givesExpressions _).expression

/-! ## Statements -/

instance (limit : Nat) : OnlyDrops (parameters limit) := by
  induction limit with
  | zero => exact ⟨gives_tooDeep⟩
  | succ limit ih =>
    unfold parameters
    infer_instance

theorem gives_functionDefinition (name : String) :
    Gives (functionDefinition name) IsWrittenStatement := by
  have hbody : ∀ names : List String, Gives (do
      expectMark ")"
      expectMark "="
      return .functionDefinition name names (← wholeExpression)) IsWrittenStatement := fun names =>
    gives_after fun _ => gives_after fun _ => gives_wholeExpression.bind fun n hn =>
      .pure (.single (.functionDefinition hn.isExpression) rfl rfl hn)
  refine gives_after fun _ => gives_after fun closed => .ite (fun _ => ?_) fun _ => ?_
  · exact gives_after hbody
  · exact gives_after fun _ => gives_after hbody

theorem gives_statement : Gives statement IsWrittenStatement := by
  refine gives_after fun tokens => .ite (fun _ => ?_) fun _ =>
    .ite (fun _ => gives_functionDefinition _) fun _ => .ite (fun _ => ?_) fun _ => ?_
  · exact gives_after fun _ => gives_wholeExpression.bind fun n hn =>
      .pure (.single (.assignment hn.isExpression) rfl rfl hn)
  · exact gives_after fun _ => gives_wholeExpression.bind fun n hn =>
      .pure (.single (.unitDefinition hn.isExpression) rfl rfl hn)
  · exact gives_wholeExpression.mono fun _ => IsWrittenExpression.statement

theorem gives_statements (limit : Nat) :
    Gives (statements limit) fun nodes => ∀ n ∈ nodes, IsWrittenStatement n := by
  induction limit with
  | zero => exact .pure fun n hn => absurd hn List.not_mem_nil
  | succ limit ih =>
    rw [statements]
    refine gives_after fun _ => gives_after fun t =>
      .ite (fun _ => .pure fun n hn => absurd hn List.not_mem_nil) fun _ => ?_
    refine gives_statement.bind fun first hfirst => gives_after fun t =>
      .ite (fun _ => ?_) fun _ => .failAt _ _
    exact ih.bind fun nodes hnodes => .pure (List.forall_mem_cons.mpr ⟨hfirst, hnodes⟩)

end TokenReader

/-- **A program's text is read as statements whose texts are made of the program's words.** -/
theorem Node.isWritten_of_read {source : String} {statements : List Node}
    (h : Node.statementsOfText source = .ok statements) : ∀ n ∈ statements, IsWrittenStatement n := by
  obtain ⟨tokens, htokens, hread⟩ := ok_of_bind h
  have hgives := TokenReader.gives_statements tokens.length tokens (Token.isLexed_of_read htokens)
  have hrun : Prod.fst <$> (TokenReader.statements tokens.length).run tokens = .ok statements := hread
  rw [TokenReader.GivesOn] at hgives
  rcases hcase : (TokenReader.statements tokens.length).run tokens with e | r
  · rw [hcase] at hrun
    cases hrun
  · rw [hcase] at hrun hgives
    cases hrun
    exact (hgives.of_ok rfl).1

/-- A program's text is read as statements. -/
theorem Node.isStatement_of_read {source : String} {statements : List Node}
    (h : Node.statementsOfText source = .ok statements) : ∀ n ∈ statements, IsStatement n :=
  fun n hn => (isWritten_of_read h n hn).isStatement

end Ballpark
