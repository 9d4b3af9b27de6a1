import Ballpark.Proofs.SessionInvariant
import Ballpark.Proofs.UnitRun

/-!
# Texts that are refused

A text is refused as a unit if its characters or its syntax are not those of units. Whether that can happen
is settled by its tokens alone: if they are a sentence the text has a unit or means nothing, and if they
are none it has no unit. The texts of the constants' units are sentences, whatever the numbers are, so no
constant is ever refused.
-/

namespace Ballpark

variable {R : Type}

/-- A text that means nothing is not one that is refused. -/
theorem MeaningFault.kind_ne {f : Fault R} (h : MeaningFault f) : f.kind ≠ .parse := by
  intro hkind
  cases h with
  | arithmetic cause =>
    simp only [Fault.kind] at hkind
    split at hkind <;> cases hkind
  | unknownUnit | undefinedRatio => cases hkind

variable [Scalar R]

namespace CompoundUnit

/-- A text whose tokens are a sentence has a unit or means nothing. -/
theorem ofText_of_sentence {text : String} {tokens : List UnitToken}
    (htokens : UnitToken.ofText (R := R) (Text.trimText text) = .ok tokens)
    (h : UnitToken.IsSentence .quotient tokens) :
    Ends (ofText text : Except (Fault R) _) (fun _ => True) MeaningFault := by
  rw [ofText]
  simp only [htokens]
  split
  · exact .ok trivial
  · refine (UnitReader.all_of_sentence _ h).bind fun read _ => ?_
    exact (canonicalize_ends _).meaning_of_arithmetic.bind fun _ _ => .ok trivial

/-- A text that has a unit is blank, or its tokens are a sentence. -/
theorem sentence_of_ofText {text : String} {tokens : List UnitToken}
    (htokens : UnitToken.ofText (R := R) (Text.trimText text) = .ok tokens)
    (hsome : (Text.trimText text).isEmpty = false) {r : CompoundUnit R × R} (h : ofText text = .ok r) :
    UnitToken.IsSentence .quotient tokens := by
  rw [ofText] at h
  simp only [htokens, hsome, Bool.false_eq_true, if_false] at h
  obtain ⟨_, hok, h⟩ := ok_of_bind h
  cases hok
  obtain ⟨read, hread, -⟩ := ok_of_bind h
  exact UnitReader.sentence_of_all hread

end CompoundUnit

/-! ## Constants -/

/-- Is a text blank, or a unit without parentheses? -/
def UnitToken.readsAsRun (text : String) : Bool :=
  let unit := Text.trimText text
  unit.isEmpty || match UnitToken.ofText (R := ℝ) unit with
    | .ok tokens => isRun .expecting tokens
    | .error _ => false

omit [Scalar R] in
/-- The tokens of a text are no matter of the numbers. -/
theorem UnitToken.scan_of_scan {S : Type} {unit : String} {limit column : Nat} {text : List Char}
    {tokens : List UnitToken} (h : scan (R := S) unit limit column text = .ok tokens) :
    scan (R := R) unit limit column text = .ok tokens := by
  induction limit generalizing column text tokens with
  | zero =>
    cases text with
    | nil | cons =>
      cases h
      rfl
  | succ limit ih =>
    rcases text with _ | ⟨c, rest⟩
    · cases h
      rfl
    rw [scan] at h ⊢
    obtain ⟨⟨token, length⟩, hnext, h⟩ := ok_of_bind h
    obtain ⟨later, hlater, h⟩ := ok_of_bind h
    -- the front of a text is a matter of its characters only
    have hsame : next (R := R) unit column c (c :: rest) = .ok (token, length) := by
      rw [next] at hnext ⊢
      split at hnext
      · cases hnext
      · cases hnext
        rfl
    simp only [hsame, ih hlater, bind, Except.bind]
    cases h
    rfl

omit [Scalar R] in
theorem UnitToken.ofText_of_ofText {S : Type} {unit : String} {tokens : List UnitToken}
    (h : ofText (R := S) unit = .ok tokens) : ofText (R := R) unit = .ok tokens :=
  scan_of_scan h

theorem CompoundUnit.ofText_of_readsAsRun {text : String} (h : UnitToken.readsAsRun text = true) :
    Ends (ofText text : Except (Fault R) _) (fun _ => True) MeaningFault := by
  rw [UnitToken.readsAsRun, Bool.or_eq_true] at h
  rcases h with hblank | hrun
  · rw [ofText]
    simp only [hblank, if_true]
    exact .ok trivial
  · split at hrun
    · rename_i tokens htokens
      have hsentence := (UnitToken.ReadTo.expecting UnitToken.awaits_nil).isSentence hrun
      exact ofText_of_sentence (UnitToken.ofText_of_ofText htokens) hsentence
    · cases hrun

theorem Constant.table_readsAsRun :
    ((table (R := R)).map (·.2.unitText)).all UnitToken.readsAsRun = true := by
  have htexts : (table (R := R)).map (·.2.unitText) = (table (R := ℝ)).map (·.2.unitText) := by
    unfold table
    rfl
  rw [htexts]
  decide +kernel

/-- What the value of a constant is read in is never refused. -/
theorem Fault.From.constant {name : String} {f : Fault R}
    (h : f.From (UnitClass.constantTexts R name)) : f.kind ≠ .parse := by
  intro hkind
  obtain ⟨text, htext, hread⟩ := h.refused hkind
  obtain ⟨constant, hconstant, rfl⟩ := List.mem_map.mp htext
  rw [Option.mem_toList] at hconstant
  obtain ⟨before, after, htable, -⟩ := List.lookup_eq_some_iff.mp hconstant
  have hmem : (Constant.ownName name, constant) ∈ Constant.table (R := R) := by
    rw [htable]
    exact List.mem_append_right _ List.mem_cons_self
  have hruns := List.all_eq_true.mp Constant.table_readsAsRun _ (List.mem_map_of_mem hmem)
  exact ((CompoundUnit.ofText_of_readsAsRun hruns).of_error hread).kind_ne hkind

end Ballpark
