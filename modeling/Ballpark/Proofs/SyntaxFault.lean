import Ballpark.Proofs.Misspelling
import Ballpark.Proofs.Recovery
import Ballpark.Proofs.StatementEffect
import Ballpark.Proofs.TextReading
import Ballpark.Proofs.UnitLetters
import Ballpark.Proofs.NodeEquality

/-!
# Faults of syntax in programs that have been read

A program that has been read can still fail by its syntax when it is run: some texts that the readers of
programs let through are refused when they are read as units. Every text that an evaluation comes to has
been written by a program, so these are the texts that a program has misspelt (`Session.refused_iff`).
-/

namespace Ballpark

open Session Evaluation

namespace Point

variable {R S : Type} [Scalar R] [RandomSource S R]

/-- The node has been written by a program, and so have the bodies of the functions. -/
structure IsWritten (p : Point R S) : Prop where
  node : p.node.IsWrittenStatement
  bodies : p.session.HasWrittenBodies

/-- An expression leaves the functions as they are. -/
theorem bodies_of_run {limit : Nat} {F : Frames R} {n : Node} {s t : Session R S}
    {result : Except (Fault R) (Option (Quantity R))} (hn : n.IsExpression) (hs : s.HasWrittenBodies)
    (hrun : Point.run ⟨limit, F, n, s⟩ = (result, t)) : t.HasWrittenBodies := by
  have hadvances := calm_evaluateNode (calm_evaluateWithin limit) hn F s hs.hasExpressionBodies
  rw [Point.run] at hrun
  rw [hrun] at hadvances
  exact hadvances.hasWrittenBodies hs

theorem bodies_of_evaluateAll {limit : Nat} {F : Frames R} {nodes : List Node} {s t : Session R S}
    {result : Except (Fault R) (List (Quantity R))} (hnodes : ∀ n ∈ nodes, n.IsExpression)
    (hs : s.HasWrittenBodies) (hrun : (evaluateAll (evaluateWithin limit) F nodes).run s = (result, t)) :
    t.HasWrittenBodies := by
  have hcalm : Calm (evaluateAll (evaluateWithin (R := R) (S := S) limit) F nodes) :=
    (calm_rules (calm_evaluateWithin limit)).evaluateAll
      (fun n hn => calm_evaluateNode (calm_evaluateWithin limit) (hnodes n hn)) F
  have hadvances := hcalm s hs.hasExpressionBodies
  rw [hrun] at hadvances
  exact hadvances.hasWrittenBodies hs

/-- What is entered has been written, if what enters it has. -/
theorem Enters.isWritten {p q : Point R S} (h : Enters p q) (hp : p.IsWritten) : q.IsWritten := by
  obtain ⟨hnode, hbodies⟩ := hp
  have hpart : ∀ m ∈ p.node.parts, m.IsWrittenExpression := fun _ => hnode.part
  cases h with
  | @operand limit F n m before after s t qs hn hm hbefore =>
    have hparts : n.parts = before ++ m :: after := (Node.parts_of_isOperation (by
      cases n <;> first | rfl | cases hn)).trans hm
    refine ⟨(hpart m ?_).statement, bodies_of_evaluateAll (fun k hk => ?_) hbodies hbefore⟩
    · exact hparts ▸ List.mem_append_right _ List.mem_cons_self
    · exact (hpart k (hparts ▸ List.mem_append_left _ hk)).isExpression
  | body harguments hfunction hframe =>
    have ht := bodies_of_evaluateAll (fun k hk => (hpart k hk).isExpression) hbodies harguments
    exact ⟨(ht _ _ hfunction).statement, ht⟩
  | bound => exact ⟨(hpart _ List.mem_cons_self).statement, hbodies⟩
  | inner hbound =>
    refine ⟨(hpart _ (List.mem_cons_of_mem _ List.mem_cons_self)).statement, ?_⟩
    exact bodies_of_run (hpart _ List.mem_cons_self).isExpression hbodies hbound
  | condition => exact ⟨(hpart _ List.mem_cons_self).statement, hbodies⟩
  | yes hcondition =>
    refine ⟨(hpart _ (List.mem_cons_of_mem _ List.mem_cons_self)).statement, ?_⟩
    exact bodies_of_run (hpart _ List.mem_cons_self).isExpression hbodies hcondition
  | no hcondition =>
    refine ⟨(hpart _ (List.mem_of_getElem? (i := 2) rfl)).statement, ?_⟩
    exact bodies_of_run (hpart _ List.mem_cons_self).isExpression hbodies hcondition
  | other hcondition hx hyes =>
    have ht := bodies_of_run (hpart _ List.mem_cons_self).isExpression hbodies hcondition
    refine ⟨(hpart _ (List.mem_of_getElem? (i := 2) rfl)).statement, ?_⟩
    exact bodies_of_run (hpart _ (List.mem_cons_of_mem _ List.mem_cons_self)).isExpression ht hyes
  | assigned | defined => exact ⟨(hpart _ List.mem_cons_self).statement, hbodies⟩
  | statement =>
    -- a program is not a statement of one
    cases hnode.isStatement with
    | expression h =>
      cases h with
      | operation hn => cases hn

theorem Reaches.isWritten {p q : Point R S} (h : Reaches p q) (hp : p.IsWritten) : q.IsWritten := by
  induction h with
  | refl => exact hp
  | tail _ hstep ih => exact hstep.isWritten ih

/-- What is read at a point is a text of its node. -/
theorem Reads.mem_readTexts {p : Point R S} {text : String} (h : p.Reads text) :
    text ∈ p.node.readTexts := by
  cases h with
  | identifier | unit | target | label => exact List.mem_singleton_self _
  | number htext | sigFig htext | set htext => exact Option.mem_toList.mpr htext
  | @range _ _ n _ _ _ _ hn htext =>
    cases n <;> first | exact Option.mem_toList.mpr htext | cases hn

end Point

namespace Session

variable {R S : Type} [Scalar R] [RandomSource S R]

/-- **A statement of a program that has been read fails by its syntax exactly if its evaluation comes to
a text that has been misspelt and is refused as a unit.** All other texts that it comes to have a unit or
mean nothing, those of a wrong form have no unit, and those with a letter that is in no token of units are
refused. -/
theorem refused_iff {source : String} {statements : List Node}
    (hread : Node.statementsOfText source = .ok statements) {n : Node} (hn : n ∈ statements)
    {s : Session R S} (hs : Programmed s) :
    (∀ f : Fault R, f.kind = .parse → (outcome n s = .error f ↔ ∃ p text parts,
      (Point.start n s).Reaches p ∧ p.Reads text ∧ p.node.Bears text parts ∧ p.node.Misspells parts ∧
        CompoundUnit.ofText text = .error f)) ∧
    ∀ p text, (Point.start n s).Reaches p → p.Reads text → ∃ parts, p.node.Bears text parts ∧
      (¬p.node.Misspells parts →
        Ends (CompoundUnit.ofText text : Except (Fault R) _) (fun _ => True) MeaningFault) ∧
      ((∀ part ∈ parts, part.isPlain = true) → p.node.IsMisshapen parts →
        ∀ r : CompoundUnit R × R, CompoundUnit.ofText text ≠ .ok r) ∧
      ∀ c ∈ text.toList, Text.isBlank c = false → UnitToken.isTokenChar c = false →
        ∃ f : Fault R, f.kind = .parse ∧ CompoundUnit.ofText text = .error f := by
  have hstart : (Point.start n s).IsWritten := ⟨Node.isWritten_of_read hread n hn, hs.hasWrittenBodies⟩
  have hbears : ∀ p text, (Point.start n s).Reaches p → p.Reads text → ∃ parts, p.node.Bears text parts :=
    fun p text hp htext => (hp.isWritten hstart).node.texts.here text htext.mem_readTexts
  refine ⟨fun f hf => ?_, fun p text hp htext => ?_⟩
  · have houtcome : outcome n s = .error f ↔ ∃ t, (Point.start n s).run = (.error f, t) := by
      rw [Point.run_start]
      exact ⟨fun h => ⟨_, congrArg (·, next n s) h⟩, fun ⟨_, h⟩ => congrArg Prod.fst h⟩
    rw [houtcome, Point.run_parse_iff hf]
    constructor
    · rintro ⟨p, text, hp, htext, hrefused⟩
      obtain ⟨parts, hparts⟩ := hbears p text hp htext
      -- a text that is spelt as one is refused for its meaning, and not for its syntax
      refine ⟨p, text, parts, hp, htext, hparts, ?_, hrefused⟩
      by_contra hspelt
      exact ((hparts.ofText_ends R hspelt).of_error hrefused).kind_ne hf
    · rintro ⟨p, text, parts, hp, htext, -, -, hrefused⟩
      exact ⟨p, text, hp, htext, hrefused⟩
  · obtain ⟨parts, hparts⟩ := hbears p text hp htext
    refine ⟨parts, hparts, hparts.ofText_ends R, fun hplain hshape => hparts.ofText_ne_ok hplain hshape, ?_⟩
    exact fun c hc hblank hforeign => CompoundUnit.ofText_foreign hc hblank hforeign

/-! ## A name that is refused -/

/-- A name that is neither a variable nor a constant has no value. -/
theorem run_lookup_of_unknown {s : Session R S} {name : String} (hvalue : s.values.get? name = none)
    (hconstant : (Constant.ofName? name : Option (Constant R)) = none) :
    ∃ t, (lookup? [] name).run s = (.ok none, t) := by
  have hremember : Constant.remember s.settings.confidence (.ok s.settings.sampleCount) name s.constants =
      (pure (none, s.constants) : Draw R S _) := by
    rw [Constant.remember, hconstant]
  show ∃ t, (valueOf? name).run s = (.ok none, t)
  rw [valueOf?, run_bind_of_ok (run_get s), hvalue]
  dsimp only
  rw [constant?, run_bind_of_ok (run_get s), hremember]
  exact ⟨_, rfl⟩

/-- Such a name fails by its syntax where it is refused as a unit. -/
theorem outcome_identifier_of_refused {s : Session R S} {name : String} (hvalue : s.values.get? name = none)
    (hconstant : (Constant.ofName? name : Option (Constant R)) = none) {f : Fault R} (hf : f.kind = .parse)
    (hrefused : CompoundUnit.ofText name = .error f) : outcome (.identifier name) s = .error f := by
  obtain ⟨t, hlookup⟩ := run_lookup_of_unknown hvalue hconstant
  have hname := Point.run_identifier_of_refused hlookup hf hrefused
  have hrun : (evaluateTree (.identifier name)).run s = (.error f, t) := by
    rw [evaluateTree, evaluateWithin, evaluateNode]
    exact run_map_of_error hname
  rw [outcome, hrun]

theorem statementsOfText_per : Node.statementsOfText "per" = .ok [.identifier "per"] :=
  Node.statementsOfText_of_toOption (by decide +kernel)

/-- The name as a program writes it. -/
def per : WrittenName :=
  ⟨"per", .name (by decide) (List.all_eq_true.mp (by decide))⟩

/-- A slash on its own is no unit. -/
theorem ofText_per : (CompoundUnit.ofText "per" : Except (Fault R) _) =
    .error (.unitText "per" (.unexpected "/")) := by
  have hspelt := UnitPart.ofText_textOf (R := R) (List.cons_ne_nil (.name per []) []) (by decide)
  have htext : UnitPart.textOf [.name per []] = "per" := by decide
  have htrim : Text.trimText "per" = "per" := by decide
  rw [htext, htrim] at hspelt
  obtain ⟨hsome, htokens⟩ := hspelt
  rw [CompoundUnit.ofText, htrim, hsome, htokens]
  rfl

theorem outcome_per : outcome (.identifier "per") fresh = .error (.unitText "per" (.unexpected "/")) := by
  have hnone : (Constant.ofName? "per" : Option (Constant ℝ)).isNone = true := by decide
  exact outcome_identifier_of_refused rfl (Option.isNone_iff_eq_none.mp hnone) rfl ofText_per

/-- A name comes to itself, and `per` is refused there. -/
theorem per_refused : ∃ p text parts, (Point.start (.identifier "per") fresh).Reaches p ∧ p.Reads text ∧
    p.node.Bears text parts ∧ p.node.Misspells parts ∧
      (CompoundUnit.ofText text : Except (Fault ℝ) _) = .error (.unitText "per" (.unexpected "/")) :=
  ((refused_iff statementsOfText_per List.mem_cons_self (.start _ _)).1 _ rfl).mp outcome_per

/-- A program that has been read can fail by its syntax when it is run. -/
theorem per_fails : ∃ statements n, Node.statementsOfText "per" = .ok statements ∧ n ∈ statements ∧
    ∃ f, outcome n fresh = .error f ∧ f.kind = .parse :=
  ⟨_, _, statementsOfText_per, List.mem_cons_self, _, outcome_per, rfl⟩

end Session

end Ballpark
