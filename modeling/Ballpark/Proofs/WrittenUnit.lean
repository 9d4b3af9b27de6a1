import Ballpark.Program.Node
import Ballpark.Program.Token
import Ballpark.Proofs.UnitSpelling
import Ballpark.Session.UnitText
import Mathlib.Data.List.DropRight

/-!
# Units as programs write them

The texts that a program's tree holds for units are made of the program's own tokens: a name that may be
a unit, a unit behind a number with its powers, the target of a conversion. Here they are their parts
(`UnitPart`), which carry what the tokenizer of programs has found. The tokenizer of units finds the same
in them, unless a name has a letter that names of units cannot have (`UnitPart.ofText_textOf`).
-/

namespace Ballpark

/-- What is a name or a label in a program. -/
inductive Piece.IsWord : List Char → Prop
  | name {c : Char} {rest : List Char} (hc : startsName c = true)
      (hrest : ∀ d ∈ rest, continuesName d = true) : IsWord (c :: rest)
  | label {c : Char} {rest : List Char} (hc : startsLabel c = true)
      (hrest : ∀ d ∈ rest, Text.isWord d = true) : IsWord ('\'' :: c :: rest)

/-- A name or a label of a program. -/
structure WrittenName where
  text : String
  isWord : Piece.IsWord text.toList

/-- A number of a program. -/
structure WrittenNumber where
  text : String
  isNumber : UnitToken.IsNumber text.toList

/-- A power behind a name. -/
structure WrittenPower where
  negative : Bool
  number : WrittenNumber

/-- A part of a unit's text. -/
inductive UnitPart where
  | name (name : WrittenName) (powers : List WrittenPower)
  | number (number : WrittenNumber)
  | mark (text : String) (h : text ∈ ["/", "*", "^", "**", "-", "(", ")"])

namespace WrittenName

/-- Are all letters of the name such that names of units may have them? -/
def isPlain (n : WrittenName) : Bool :=
  n.text.toList.all fun c => !Text.isWord c || UnitToken.continuesName c

/-- What a name is in the text of a unit. -/
def token (n : WrittenName) : UnitToken :=
  if n.text = "per" then .mark "/" else .name n.text

end WrittenName

namespace WrittenPower

/-- The text of a power behind its sign. -/
def text (p : WrittenPower) : String :=
  if p.negative then "-" ++ p.number.text else p.number.text

def tokens (p : WrittenPower) : List UnitToken :=
  .mark "^" :: if p.negative then [.mark "-", .number p.number.text] else [.number p.number.text]

end WrittenPower

namespace UnitPart

def text : UnitPart → String
  | name n powers => powers.foldl (fun before p => before ++ "^" ++ p.text) n.text
  | number k => k.text
  | mark m _ => m

/-- What a part is in the text of a unit. -/
def tokens : UnitPart → List UnitToken
  | name n powers => n.token :: powers.flatMap (·.tokens)
  | number k => [.number k.text]
  | mark m _ => [.mark m]

/-- Has no name of the part a letter that names of units cannot have? -/
def isPlain : UnitPart → Bool
  | name n _ => n.isPlain
  | _ => true

/-- How often is the part raised? -/
def powerCount : UnitPart → Nat
  | name _ powers => powers.length
  | _ => 0

/-- The text of some parts. -/
def textOf (parts : List UnitPart) : String :=
  " ".intercalate (parts.map text)

/-- What some parts are in the text of a unit. -/
def tokensOf (parts : List UnitPart) : List UnitToken :=
  parts.flatMap tokens

def slash : UnitPart :=
  .mark "/" List.mem_cons_self

/-- The parts of a unit behind a number: names with powers, and slashes between them. -/
inductive IsUnit : List UnitPart → Prop
  | first {n : WrittenName} (hn : n.text ≠ "per") : IsUnit [name n []]
  | raised {parts : List UnitPart} {n : WrittenName} {powers : List WrittenPower} (p : WrittenPower)
      (h : IsUnit (parts ++ [name n powers])) : IsUnit (parts ++ [name n (powers ++ [p])])
  | beside {parts : List UnitPart} {n : WrittenName} (hn : n.text ≠ "per") (h : IsUnit parts) :
      IsUnit (parts ++ [name n []])
  | divided {parts : List UnitPart} {n : WrittenName} (hn : n.text ≠ "per") (h : IsUnit parts) :
      IsUnit (parts ++ [slash, name n []])

/-- A unit ends in a name with its powers. -/
theorem IsUnit.exists_last {parts : List UnitPart} (h : IsUnit parts) :
    ∃ front n powers, parts = front ++ [name n powers] := by
  cases h with
  | first => exact ⟨[], _, _, rfl⟩
  | raised | beside => exact ⟨_, _, _, rfl⟩
  | @divided parts n => exact ⟨parts ++ [slash], n, [], by simp⟩

end UnitPart

/-! ## Texts in trees -/

namespace Node

/-- The text of the unit that is written at a node itself. -/
def unitText? : Node → Option String
  | .number _ text | .sigFig _ text | .range _ _ text | .uniformRange _ _ text | .normalRange _ _ text
  | .weightedSet _ _ text => Session.written? text
  | .unit text => some text
  | _ => none

/-- The texts at a node itself that its evaluation may read as units. -/
def readTexts : Node → List String
  | .identifier name => [name]
  | .conversion _ target => [Text.trimText target]
  | n => n.unitText?.toList

/-- A text that a node's evaluation may read is made of some parts. -/
inductive Bears : Node → String → List UnitPart → Prop
  | name {n : WrittenName} : Bears (.identifier n.text) n.text [.name n []]
  | unit {n : Node} {parts : List UnitPart} (htext : n.unitText? = some (UnitPart.textOf parts))
      (h : UnitPart.IsUnit parts) : Bears n (UnitPart.textOf parts) parts
  | target {expression : Node} {parts : List UnitPart} (hsome : parts ≠ []) :
      Bears (.conversion expression (UnitPart.textOf parts)) (Text.trimText (UnitPart.textOf parts)) parts

/-- The texts at a node itself are made of parts. -/
def IsWritten (n : Node) : Prop :=
  ∀ text ∈ n.readTexts, ∃ parts, n.Bears text parts

end Node

/-! ## Spelling -/

/-- What has been trimmed has no blanks at its ends. -/
theorem Text.trim_trim (text : List Char) : trim (trim text) = trim text := by
  have hend : ∀ back : List Char, trimEnd back = back.rdropWhile isBlank := fun _ => rfl
  have hstart : trimStart (trim text) = trim text := by
    rw [trim, hend]
    rcases hcore : (trimStart text).rdropWhile isBlank with _ | ⟨c, core⟩
    · rfl
    · obtain ⟨back, hback⟩ := List.rdropWhile_prefix isBlank (l := trimStart text)
      have hfirst := List.head?_dropWhile_not isBlank text
      rw [← trimStart, ← hback, hcore] at hfirst
      rw [trimStart, List.dropWhile_cons_of_neg (by simpa using hfirst)]
  rw [trim, hstart, trim, hend, hend, List.rdropWhile_idempotent]

theorem Piece.startsName_of_isNameSign {c : Char} (h : isNameSign c = true) :
    UnitToken.startsName c = true := by
  simp only [isNameSign, Bool.or_eq_true, beq_iff_eq] at h
  rcases h with (((rfl | rfl) | rfl) | rfl) | rfl
  all_goals decide

theorem Piece.startsName_of_startsLabel {c : Char} (h : startsLabel c = true) :
    UnitToken.startsName c = true := by
  rw [UnitToken.startsName, ← startsLabel, h, Bool.true_or]

namespace UnitToken

/-- A name without foreign letters is a name of units. -/
theorem isName_of_isPlain {n : WrittenName} (h : n.isPlain = true) : IsName n.text.toList := by
  have hplain : ∀ c ∈ n.text.toList, Text.isWord c = true → continuesName c = true := by
    intro c hc hword
    have := List.all_eq_true.mp h c hc
    rwa [hword, Bool.not_true, Bool.false_or] at this
  have hword := n.isWord
  generalize n.text.toList = text at hplain hword
  cases hword with
  | name hc hrest =>
    refine .plain ?_ fun d hd => ?_
    · rcases Bool.or_eq_true_iff.mp hc with hletter | hsign
      · exact Piece.startsName_of_startsLabel hletter
      · exact Piece.startsName_of_isNameSign hsign
    · rcases Bool.or_eq_true_iff.mp (hrest d hd) with hletter | hsign
      · exact hplain d (List.mem_cons_of_mem _ hd) hletter
      · rw [continuesName, Piece.startsName_of_isNameSign hsign, Bool.true_or]
  | label hc hrest =>
    refine .label (Piece.startsName_of_startsLabel hc) fun d hd => ?_
    exact hplain d (List.mem_cons_of_mem _ (List.mem_cons_of_mem _ hd)) (hrest d hd)

theorem spelled_name {n : WrittenName} (hn : n.isPlain = true) : SpelledFront [n.token] n.text.toList := by
  rw [WrittenName.token]
  split
  · rename_i hper
    rw [hper]
    exact .per
  · exact .name (isName_of_isPlain hn) ‹_›

theorem spelled_power (p : WrittenPower) : SpelledFront p.tokens ('^' :: p.text.toList) := by
  have hnumber := SpelledFront.number p.number.isNumber
  rw [WrittenPower.tokens, WrittenPower.text]
  split
  · rw [String.toList_append]
    exact .sign (by decide) (hnumber.sign (by decide))
  · exact hnumber.sign (by decide)

theorem follows_powers (powers : List WrittenPower) :
    Follows (powers.flatMap fun p => '^' :: p.text.toList) := by
  cases powers with
  | nil => exact follows_nil
  | cons => exact follows_cons (by decide)

theorem spelled_powers (powers : List WrittenPower) :
    SpelledFront (powers.flatMap (·.tokens)) (powers.flatMap fun p => '^' :: p.text.toList) := by
  induction powers with
  | nil => exact .nil
  | cons p powers ih =>
    rw [List.flatMap_cons, List.flatMap_cons]
    exact (spelled_power p).append ih (follows_powers powers)

theorem spelled_mark {m : String} (hm : m ∈ ["/", "*", "^", "**", "-", "(", ")"]) :
    SpelledFront [.mark m] m.toList := by
  simp only [List.mem_cons, List.not_mem_nil, or_false] at hm
  rcases hm with rfl | rfl | rfl | rfl | rfl | rfl | rfl
  · exact .sign (by decide) .nil
  · exact .times
  · exact .sign (by decide) .nil
  · exact .stars
  · exact .sign (by decide) .nil
  · exact .sign (by decide) .nil
  · exact .sign (by decide) .nil

end UnitToken

namespace UnitPart

open UnitToken

theorem toList_text_name (n : WrittenName) (powers : List WrittenPower) :
    (name n powers).text.toList = n.text.toList ++ powers.flatMap fun p => '^' :: p.text.toList := by
  rw [text]
  generalize n.text = before
  induction powers generalizing before with
  | nil => simp
  | cons p powers ih =>
    rw [List.foldl_cons, ih, List.flatMap_cons]
    simp

theorem spelled_part {part : UnitPart} (hpart : part.isPlain = true) :
    SpelledFront part.tokens part.text.toList := by
  cases part with
  | name n powers =>
    rw [toList_text_name]
    exact (spelled_name hpart).append (spelled_powers powers) (follows_powers powers)
  | number k => exact .number k.isNumber
  | mark m hm => exact spelled_mark hm

theorem exists_tokensOf {parts : List UnitPart} (hsome : parts ≠ []) :
    ∃ token tokens, tokensOf parts = token :: tokens := by
  obtain ⟨part, rest, rfl⟩ := List.exists_cons_of_ne_nil hsome
  cases part with
  | name | number | mark => exact ⟨_, _, rfl⟩

/-- Parts without foreign letters spell what they are. -/
theorem spelled_textOf {parts : List UnitPart} (h : ∀ part ∈ parts, part.isPlain = true) :
    SpelledFront (tokensOf parts) (textOf parts).toList := by
  induction parts with
  | nil => exact .nil
  | cons part parts ih =>
    obtain ⟨hpart, hrest⟩ := List.forall_mem_cons.mp h
    rcases parts with _ | ⟨next, parts⟩
    · rw [tokensOf, textOf, List.flatMap_singleton, List.map_singleton, String.intercalate_singleton]
      exact spelled_part hpart
    · obtain ⟨token, tokens, htokens⟩ := exists_tokensOf (List.cons_ne_nil next parts)
      have hspelled := ih hrest
      rw [htokens] at hspelled
      rw [textOf, List.map_cons, List.map_cons, String.intercalate_cons_cons, String.append_assoc,
        String.toList_append, String.toList_append, tokensOf, List.flatMap_cons, ← tokensOf, htokens]
      exact (spelled_part hpart).append hspelled.blank (follows_cons (by decide))

/-- **The tokenizer of units finds the parts again.** -/
theorem ofText_textOf {R : Type} {parts : List UnitPart} (hsome : parts ≠ [])
    (h : ∀ part ∈ parts, part.isPlain = true) :
    (Text.trimText (textOf parts)).isEmpty = false ∧
      UnitToken.ofText (R := R) (Text.trimText (textOf parts)) = .ok (tokensOf parts) := by
  obtain ⟨token, tokens, htokens⟩ := exists_tokensOf hsome
  have hspelled := spelled_textOf h
  rw [htokens] at hspelled ⊢
  exact hspelled.ofText

end UnitPart

end Ballpark
