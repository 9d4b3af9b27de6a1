import Ballpark.Proofs.UnitRefusal
import Ballpark.Proofs.WrittenUnit

/-!
# Texts that programs misspell

The readers of programs let through some texts that are no units (`Node.Misspells`): a name with a letter
that names of units cannot have, the word `per` on its own, a unit that is raised twice in one place, and
a target that is no quotient of products. All other texts in a program have a unit or mean nothing
(`Node.Bears.ofText_ends`), and those of a wrong form have none (`Node.Bears.ofText_ne_ok`).
-/

namespace Ballpark

open UnitToken (IsSentence RunPlace isRun isSentence_iff_isRun)

/-! ## Units are runs -/

namespace UnitPart

theorem tokensOf_append (front back : List UnitPart) :
    tokensOf (front ++ back) = tokensOf front ++ tokensOf back :=
  List.flatMap_append

theorem token_of_ne_per {n : WrittenName} (hn : n.text ≠ "per") : n.token = .name n.text :=
  if_neg hn

/-- Where a run stands behind a unit: behind the powers of its last name, or behind the name. -/
def placeBehind (parts : List UnitPart) : RunPlace :=
  if (parts.getLast?).any (·.powerCount != 0) then .raised else .base

theorem placeBehind_append (front : List UnitPart) (last : UnitPart) :
    placeBehind (front ++ [last]) = if last.powerCount != 0 then .raised else .base := by
  rw [placeBehind, List.getLast?_concat]
  rfl

/-- A power behind a name leads behind the power. -/
theorem isRun_power (p : WrittenPower) (rest : List UnitToken) :
    isRun .base (p.tokens ++ rest) = isRun .raised rest := by
  rw [WrittenPower.tokens]
  split <;> rfl

/-- No second power follows. -/
theorem isRun_second (p : WrittenPower) (rest : List UnitToken) : isRun .raised (p.tokens ++ rest) = false :=
  rfl

/-- A name may follow behind a unit. -/
theorem isRun_name (parts : List UnitPart) (text : String) (rest : List UnitToken) :
    isRun (placeBehind parts) (.name text :: rest) = isRun .base rest := by
  rw [placeBehind]
  split <;> rfl

/-- And a slash with a name behind it. -/
theorem isRun_over (parts : List UnitPart) (text : String) (rest : List UnitToken) :
    isRun (placeBehind parts) (.mark "/" :: .name text :: rest) = isRun .base rest := by
  rw [placeBehind]
  split <;> rfl

/-- Is no part raised twice? -/
def RaisedOnce (parts : List UnitPart) : Prop :=
  ∀ part ∈ parts, part.powerCount ≤ 1

theorem raisedOnce_append {front back : List UnitPart} :
    RaisedOnce (front ++ back) ↔ RaisedOnce front ∧ RaisedOnce back :=
  List.forall_mem_append

theorem raisedOnce_plain (n : WrittenName) : RaisedOnce [name n []] := by
  simp [RaisedOnce, powerCount]

theorem tokensOf_plain {n : WrittenName} (hn : n.text ≠ "per") : tokensOf [name n []] = [.name n.text] := by
  rw [tokensOf, List.flatMap_singleton, tokens, token_of_ne_per hn]
  rfl

theorem tokensOf_raised (front : List UnitPart) (n : WrittenName) (powers : List WrittenPower)
    (p : WrittenPower) :
    tokensOf (front ++ [name n (powers ++ [p])]) = tokensOf (front ++ [name n powers]) ++ p.tokens := by
  simp [tokensOf, tokens]

/-- A unit that is raised at most once in each place leads behind its last part, and no other goes on. -/
theorem IsUnit.isRun {parts : List UnitPart} (h : IsUnit parts) (rest : List UnitToken) :
    (RaisedOnce parts → isRun .expecting (tokensOf parts ++ rest) = isRun (placeBehind parts) rest) ∧
      (¬RaisedOnce parts → isRun .expecting (tokensOf parts ++ rest) = false) := by
  induction h generalizing rest with
  | @first n hn =>
    refine ⟨fun _ => ?_, fun hmany => absurd (raisedOnce_plain n) hmany⟩
    rw [tokensOf_plain hn]
    rfl
  | @raised front n powers p h ih =>
    rw [tokensOf_raised, List.append_assoc, placeBehind_append]
    obtain ⟨hgoes, hstops⟩ := ih (p.tokens ++ rest)
    rw [placeBehind_append] at hgoes
    have hlength : (name n (powers ++ [p])).powerCount = powers.length + 1 := List.length_append
    refine ⟨fun honce => ?_, fun hmany => ?_⟩
    · -- there was no power before
      obtain ⟨hfront, hlast⟩ := raisedOnce_append.mp honce
      have hcount := hlast _ (List.mem_singleton_self _)
      obtain rfl : powers = [] := List.length_eq_zero_iff.mp (by omega)
      rw [hgoes (raisedOnce_append.mpr ⟨hfront, raisedOnce_plain n⟩)]
      exact isRun_power p rest
    · by_cases hbefore : RaisedOnce (front ++ [name n powers])
      · have hsome : powers ≠ [] := by
          rintro rfl
          refine hmany (raisedOnce_append.mpr ⟨(raisedOnce_append.mp hbefore).1, ?_⟩)
          simp [RaisedOnce, powerCount]
        have hplace : ((name n powers).powerCount != 0) = true :=
          bne_iff_ne.mpr (List.length_eq_zero_iff.not.mpr hsome)
        rw [hgoes hbefore, hplace]
        exact isRun_second p rest
      · exact hstops hbefore
  | @beside parts n hn h ih =>
    rw [tokensOf_append, tokensOf_plain hn, List.append_assoc, placeBehind_append]
    obtain ⟨hgoes, hstops⟩ := ih (.name n.text :: rest)
    refine ⟨fun honce => ?_, fun hmany => hstops fun hbefore => hmany ?_⟩
    · exact (hgoes (raisedOnce_append.mp honce).1).trans (isRun_name parts n.text rest)
    · exact raisedOnce_append.mpr ⟨hbefore, raisedOnce_plain n⟩
  | @divided parts n hn h ih =>
    have htokens : tokensOf [slash, name n []] = [.mark "/", .name n.text] :=
      congrArg (UnitToken.mark "/" :: ·) (tokensOf_plain hn)
    have hplace : placeBehind (parts ++ [slash, name n []]) = .base := by
      rw [List.append_cons, placeBehind_append]
      rfl
    have hlast : RaisedOnce [slash, name n []] := by simp [RaisedOnce, powerCount, slash]
    rw [tokensOf_append, htokens, List.append_assoc, hplace]
    obtain ⟨hgoes, hstops⟩ := ih (.mark "/" :: .name n.text :: rest)
    refine ⟨fun honce => ?_, fun hmany => hstops fun hbefore => hmany ?_⟩
    · exact (hgoes (raisedOnce_append.mp honce).1).trans (isRun_over parts n.text rest)
    · exact raisedOnce_append.mpr ⟨hbefore, hlast⟩

theorem IsUnit.name_or_slash {parts : List UnitPart} (h : IsUnit parts) :
    ∀ part ∈ parts, part = slash ∨ ∃ n powers, part = name n powers := by
  induction h with
  | first => exact fun part hpart => .inr ⟨_, _, List.mem_singleton.mp hpart⟩
  | raised p h ih =>
    obtain ⟨hfront, -⟩ := List.forall_mem_append.mp ih
    exact List.forall_mem_append.mpr ⟨hfront, fun part hpart => .inr ⟨_, _, List.mem_singleton.mp hpart⟩⟩
  | beside hn h ih =>
    exact List.forall_mem_append.mpr ⟨ih, fun part hpart => .inr ⟨_, _, List.mem_singleton.mp hpart⟩⟩
  | divided hn h ih =>
    refine List.forall_mem_append.mpr ⟨ih, List.forall_mem_cons.mpr ⟨.inl rfl, ?_⟩⟩
    exact fun part hpart => .inr ⟨_, _, List.mem_singleton.mp hpart⟩

/-- No parenthesis stands in a unit. -/
theorem IsUnit.ne_opening {parts : List UnitPart} (h : IsUnit parts) :
    ∀ token ∈ tokensOf parts, token ≠ .mark "(" := by
  intro token htoken
  obtain ⟨part, hpart, htoken⟩ := List.mem_flatMap.mp htoken
  rcases h.name_or_slash part hpart with rfl | ⟨n, powers, rfl⟩
  · rw [List.mem_singleton.mp htoken]
    decide
  · rcases List.mem_cons.mp htoken with rfl | hpower
    · rw [WrittenName.token]
      split
      · decide
      · simp
    · obtain ⟨p, -, hp⟩ := List.mem_flatMap.mp hpower
      rw [WrittenPower.tokens] at hp
      rcases List.mem_cons.mp hp with rfl | hp
      · decide
      · rintro rfl
        split at hp <;> simp at hp

/-- A unit is a sentence if and only if no part is raised twice. -/
theorem IsUnit.isSentence_iff {parts : List UnitPart} (h : IsUnit parts) :
    IsSentence .quotient (tokensOf parts) ↔ RaisedOnce parts := by
  obtain ⟨hgoes, hstops⟩ := h.isRun []
  rw [List.append_nil] at hgoes hstops
  rw [isSentence_iff_isRun h.ne_opening]
  constructor
  · intro hrun
    by_contra hmany
    rw [hstops hmany] at hrun
    cases hrun
  · intro honce
    rw [hgoes honce, placeBehind]
    split <;> rfl

end UnitPart

/-! ## Texts in trees -/

namespace Node

open UnitPart (textOf tokensOf RaisedOnce)

/-- Have the parts of a text at a node a form that units cannot have? -/
def IsMisshapen : Node → List UnitPart → Prop
  | .identifier name, _ => name = "per"
  | .conversion .., parts => ¬IsSentence .quotient (tokensOf parts)
  | _, parts => ¬RaisedOnce parts

/-- Is a text at a node one that is no unit: has it a foreign letter or a wrong form? -/
def Misspells (n : Node) (parts : List UnitPart) : Prop :=
  (∃ part ∈ parts, part.isPlain = false) ∨ n.IsMisshapen parts

namespace Bears

variable {n : Node} {text : String} {parts : List UnitPart} (h : n.Bears text parts)
include h

theorem ne_nil : parts ≠ [] := by
  cases h with
  | name => exact List.cons_ne_nil _ _
  | unit _ h =>
    obtain ⟨front, n, powers, rfl⟩ := h.exists_last
    exact List.append_ne_nil_of_right_ne_nil front (List.cons_ne_nil _ _)
  | target hsome => exact hsome

/-- Exactly the parts of a wrong form are no sentence. -/
theorem isSentence_iff : IsSentence .quotient (tokensOf parts) ↔ ¬n.IsMisshapen parts := by
  cases h with
  | @name name =>
    have htokens : tokensOf [.name name []] = [name.token] := rfl
    rw [IsMisshapen, htokens, WrittenName.token]
    split
    · rename_i hper
      refine iff_of_false (fun h => ?_) (not_not_intro hper)
      cases (isSentence_iff_isRun (by decide)).mp h
    · exact iff_of_true (.product (.power (.atom .name))) ‹_›
  | unit htext h =>
    cases n with
    | identifier | conversion => cases htext
    | _ => exact h.isSentence_iff.trans not_not.symm
  | target hsome => rw [IsMisshapen, not_not]

/-- What is read at the node is read as the parts are. -/
theorem ofText_eq (R : Type) [Scalar R] :
    (CompoundUnit.ofText text : Except (Fault R) _) = CompoundUnit.ofText (textOf parts) := by
  cases h with
  | @name name =>
    rw [textOf, List.map_singleton, String.intercalate_singleton]
    rfl
  | unit htext h => rfl
  | @target _ parts hsome =>
    have htrim : Text.trimText (Text.trimText (textOf parts)) = Text.trimText (textOf parts) := by
      rw [Text.trimText, Text.trimText, String.toList_ofList, Text.trim_trim]
    rw [CompoundUnit.ofText, htrim]
    rfl

/-- **A text that is not misspelt has a unit or means nothing.** -/
theorem ofText_ends (R : Type) [Scalar R] (hspelt : ¬n.Misspells parts) :
    Ends (CompoundUnit.ofText text : Except (Fault R) _) (fun _ => True) MeaningFault := by
  rw [Misspells, not_or, not_exists] at hspelt
  have hplain : ∀ part ∈ parts, part.isPlain = true := fun part hpart =>
    Bool.eq_true_of_not_eq_false fun hforeign => hspelt.1 part ⟨hpart, hforeign⟩
  rw [h.ofText_eq R]
  exact CompoundUnit.ofText_of_sentence (UnitPart.ofText_textOf h.ne_nil hplain).2
    (h.isSentence_iff.mpr hspelt.2)

/-- A text of a wrong form has no unit. -/
theorem ofText_ne_ok {R : Type} [Scalar R] (hplain : ∀ part ∈ parts, part.isPlain = true)
    (hshape : n.IsMisshapen parts) (r : CompoundUnit R × R) : CompoundUnit.ofText text ≠ .ok r := by
  rw [h.ofText_eq R]
  intro hread
  obtain ⟨hsome, htokens⟩ := UnitPart.ofText_textOf (R := R) h.ne_nil hplain
  exact h.isSentence_iff.mp (CompoundUnit.sentence_of_ofText htokens hsome hread) hshape

end Bears

end Node

end Ballpark
