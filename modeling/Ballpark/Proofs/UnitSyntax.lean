import Ballpark.Proofs.UnitGrammar

/-!
# The syntax of units

Which tokens the readers of units take, whatever the tokens mean: names need not be known, numbers may be
zero, and exponents may be fractions. A sentence (`UnitToken.IsSentence`) is read to its end, or something
in it means nothing (`UnitReader.all_of_sentence`); and whatever is read to its end is a sentence
(`UnitReader.sentence_of_all`). So a text of units is refused for its syntax only if its tokens are no
sentence, and tokens that are none have no unit.
-/

namespace Ballpark

namespace UnitToken

/-- Tokens that have the form of an exponent. -/
inductive IsExponent : List UnitToken → Prop
  | number {text : String} : IsExponent [.number text]
  | negative {text : String} : IsExponent [.mark "-", .number text]
  | enclosed {tokens : List UnitToken} {closing : UnitToken} (h : IsExponent tokens)
      (hclosing : closing.text = ")") : IsExponent (.mark "(" :: (tokens ++ [closing]))
  | ratio {above below : List UnitToken} {closing : UnitToken} (h : IsExponent above)
      (hbelow : IsExponent below) (hclosing : closing.text = ")") :
      IsExponent (.mark "(" :: (above ++ .mark "/" :: (below ++ [closing])))

/-- **The syntax of units**: tokens that have the form that a rule of the grammar asks for. -/
inductive IsSentence : UnitTree.Level → List UnitToken → Prop
  | name {text : String} : IsSentence .atom [.name text]
  | number {text : String} : IsSentence .atom [.number text]
  | enclosed {tokens : List UnitToken} (h : IsSentence .quotient tokens) :
      IsSentence .atom (.mark "(" :: (tokens ++ [.mark ")"]))
  | atom {tokens : List UnitToken} (h : IsSentence .atom tokens) : IsSentence .power tokens
  | raised {tokens exponent : List UnitToken} {mark : String} (h : IsSentence .atom tokens)
      (hmark : mark ∈ ["^", "**"]) (hexponent : IsExponent exponent) :
      IsSentence .power (tokens ++ .mark mark :: exponent)
  | power {tokens : List UnitToken} (h : IsSentence .power tokens) : IsSentence .product tokens
  | times {left right : List UnitToken} {mark : String} (hleft : IsSentence .product left)
      (hmark : mark ∈ ["*", "·"]) (hright : IsSentence .power right) :
      IsSentence .product (left ++ .mark mark :: right)
  | beside {left right : List UnitToken} (hleft : IsSentence .product left)
      (hright : IsSentence .power right) : IsSentence .product (left ++ right)
  | product {tokens : List UnitToken} (h : IsSentence .product tokens) : IsSentence .quotient tokens
  | divided {above below : List UnitToken} (habove : IsSentence .quotient above)
      (hbelow : IsSentence .product below) : IsSentence .quotient (above ++ .mark "/" :: below)

/-- Every sentence begins with an atom. -/
theorem IsSentence.opens {level : UnitTree.Level} {tokens : List UnitToken}
    (h : IsSentence level tokens) : UnitTree.Opens tokens := by
  induction h with
  | name | number => exact ⟨_, _, rfl, fun _ heq => nomatch heq⟩
  | enclosed => exact ⟨_, _, rfl, fun _ heq => (UnitToken.mark.inj heq).symm⟩
  | atom _ ih | power _ ih | product _ ih => exact ih
  | raised _ _ _ ih | times _ _ _ ih | beside _ _ ih | divided _ _ ih => exact ih.append _

end UnitToken

/-! ## Sentences and expressions -/

namespace UnitToken

/-- What writes an exponent has the form of one, in parentheses at least. -/
theorem isExponent_of_writes {place : ExponentExpression.Place} {e : ExponentExpression}
    {tokens : List UnitToken} (h : e.Writes place tokens) : match place with
      | .alone => IsExponent tokens
      | .enclosed => ∀ closing : UnitToken, closing.text = ")" →
          IsExponent (.mark "(" :: (tokens ++ [closing])) := by
  induction h with
  | number => exact .number
  | negative => exact .negative
  | enclosed _ hclosing ih => exact ih _ hclosing
  | alone _ ih => exact fun closing hclosing => .enclosed ih hclosing
  | ratio _ _ ihe ihd =>
    intro closing hclosing
    simpa using IsExponent.ratio ihe ihd hclosing

theorem IsExponent.exists_expression {tokens : List UnitToken} (h : IsExponent tokens) :
    ∃ e : ExponentExpression, e.Writes .alone tokens := by
  induction h with
  | number => exact ⟨_, .number⟩
  | negative => exact ⟨_, .negative⟩
  | enclosed _ hclosing ih =>
    obtain ⟨e, he⟩ := ih
    exact ⟨e, .enclosed (.alone he) hclosing⟩
  | ratio _ _ hclosing ihabove ihbelow =>
    obtain ⟨e, he⟩ := ihabove
    obtain ⟨d, hd⟩ := ihbelow
    have hratio := ExponentExpression.Writes.enclosed (he.ratio hd) hclosing
    exact ⟨_, by simpa only [List.append_assoc, List.cons_append] using hratio⟩

/-- A sentence writes an expression. -/
theorem IsSentence.exists_expression {level : UnitTree.Level} {tokens : List UnitToken}
    (h : IsSentence level tokens) : ∃ s : UnitExpression, s.Writes level tokens := by
  induction h with
  | name => exact ⟨_, .name⟩
  | number => exact ⟨_, .number⟩
  | enclosed _ ih => exact ih.imp fun _ => .enclosed
  | atom _ ih => exact ih.imp fun _ => .atom
  | raised _ hmark hexponent ih =>
    obtain ⟨s, hs⟩ := ih
    obtain ⟨e, he⟩ := hexponent.exists_expression
    exact ⟨_, hs.raised hmark he⟩
  | power _ ih => exact ih.imp fun _ => .power
  | times _ hmark _ ihleft ihright =>
    obtain ⟨s, hs⟩ := ihleft
    obtain ⟨t, ht⟩ := ihright
    exact ⟨_, hs.times hmark ht⟩
  | beside _ _ ihleft ihright =>
    obtain ⟨s, hs⟩ := ihleft
    obtain ⟨t, ht⟩ := ihright
    exact ⟨_, hs.beside ht⟩
  | product _ ih => exact ih.imp fun _ => .product
  | divided _ _ ihabove ihbelow =>
    obtain ⟨s, hs⟩ := ihabove
    obtain ⟨t, ht⟩ := ihbelow
    exact ⟨_, hs.divided ht⟩

end UnitToken

/-- What writes an expression is a sentence. -/
theorem UnitExpression.Writes.isSentence {level : UnitTree.Level} {s : UnitExpression}
    {tokens : List UnitToken} (h : s.Writes level tokens) : UnitToken.IsSentence level tokens := by
  induction h with
  | name => exact .name
  | number => exact .number
  | enclosed _ ih => exact .enclosed ih
  | atom _ ih => exact .atom ih
  | raised _ hmark he ih => exact .raised ih hmark (UnitToken.isExponent_of_writes he)
  | power _ ih => exact .power ih
  | times _ hmark _ ihs iht => exact .times ihs hmark iht
  | beside _ _ ihs iht => exact .beside ihs iht
  | product _ ih => exact .product ih
  | divided _ _ ihs iht => exact .divided ihs iht

/-! ## Sentences are what is read -/

namespace UnitReader

open UnitToken

variable {R : Type} [Scalar R] {unit : String}

/-- **A sentence is read to its end**, unless something in it means nothing. -/
theorem all_of_sentence (unit : String) {tokens : List UnitToken} (h : IsSentence .quotient tokens) :
    Ends (all unit tokens : Except (Fault R) (ScaledTerms R)) (fun _ => True) MeaningFault := by
  obtain ⟨s, hs⟩ := h.exists_expression
  rw [all_eq_evaluate unit hs]
  exact s.evaluate_ends.mono (fun _ _ => trivial) fun _ => id

/-- **What is read to its end is a sentence.** -/
theorem sentence_of_all {tokens : List UnitToken} {a : ScaledTerms R}
    (h : all unit tokens = .ok a) : IsSentence .quotient tokens := by
  obtain ⟨s, hs, -⟩ := (all_explained unit tokens).of_ok h
  exact hs.isSentence

end UnitReader

end Ballpark
