import Ballpark.Proofs.UnitArithmetic
import Ballpark.Proofs.UnitReading

/-!
# Units that are read

Whatever text a unit is read from, its factors are known by name, so the unit is canonical
(`CompoundUnit.ofText_sound`); and what can go wrong on the way is a text that does not parse, or one
that means nothing: by a name that is not known, or by the arithmetic of exponents and written numbers
(`ReadingFault`, `MeaningFault`). Both are read off the values of unit expressions, by induction on the
expression.
-/

namespace Ballpark

/-- What can go wrong with the meaning of a unit. -/
inductive MeaningFault {R : Type} : Fault R → Prop
  | unknownUnit (name : String) (hints : List String) : MeaningFault (.unknownUnit name hints)
  | arithmetic (cause : ArithmeticFault) : MeaningFault (.arithmetic cause)
  /-- an exponent that is no number -/
  | undefinedRatio : MeaningFault (.value .undefinedRatio)

/-- What can go wrong when a unit is read. -/
inductive ReadingFault {R : Type} : Fault R → Prop
  | unitText (unit : String) (issue : UnitIssue) : ReadingFault (.unitText unit issue)
  | unknownUnit (name : String) (hints : List String) : ReadingFault (.unknownUnit name hints)
  | arithmetic (cause : ArithmeticFault) : ReadingFault (.arithmetic cause)
  /-- an exponent that is no number -/
  | undefinedRatio : ReadingFault (.value .undefinedRatio)
  | exhausted : ReadingFault .exhausted

variable {R : Type}

/-- A text has a character that is in no token of units. -/
def TokenFault (f : Fault R) : Prop :=
  ∃ unit issue, f = .unitText unit issue

namespace Checked

/-- Checked arithmetic fails with faults of the arithmetic only. -/
def ArithmeticOnly (f : Fault R) : Prop :=
  ∃ cause, f = .arithmetic cause

variable [Scalar R]

theorem div_ends (x y : R) : Ends (div x y) (fun _ => True) ArithmeticOnly := by
  rw [div]
  split
  · exact .error ⟨_, rfl⟩
  · exact .ok True.intro

theorem pow_ends (x y : R) : Ends (pow x y) (fun _ => True) ArithmeticOnly := by
  simp only [pow]
  split
  · exact .error ⟨_, rfl⟩
  · split
    · exact .error ⟨_, rfl⟩
    · exact .ok True.intro

theorem withinRange_ends (fault : ArithmeticFault) (x : R) :
    Ends (withinRange fault x) (fun _ => True) ArithmeticOnly := by
  simp only [withinRange]
  split
  · exact .error ⟨_, rfl⟩
  · exact .ok True.intro

theorem ofRat_ends (q : Rat) : Ends (ofRat q : Except (Fault R) R) (fun _ => True) ArithmeticOnly :=
  withinRange_ends _ _

theorem ofInt_ends (n : Int) : Ends (ofInt n : Except (Fault R) R) (fun _ => True) ArithmeticOnly :=
  withinRange_ends _ _

theorem powRat_ends (x : R) (q : Rat) : Ends (powRat x q) (fun _ => True) ArithmeticOnly :=
  (ofRat_ends q).bind fun k _ => pow_ends x k

end Checked

/-- Checked arithmetic on what is written can only spoil the meaning. -/
theorem Ends.meaning_of_arithmetic {α : Type} {e : Except (Fault R) α} {P : α → Prop}
    (h : Ends e P Checked.ArithmeticOnly) : Ends e P MeaningFault :=
  h.mono (fun _ => id) fun _ ⟨cause, hf⟩ => hf ▸ .arithmetic cause

theorem Ends.reading_of_meaning {α : Type} {e : Except (Fault R) α} {P : α → Prop}
    (h : Ends e P MeaningFault) : Ends e P ReadingFault := by
  refine h.mono (fun _ => id) fun f hf => ?_
  cases hf with
  | unknownUnit name hints => exact .unknownUnit name hints
  | arithmetic cause => exact .arithmetic cause
  | undefinedRatio => exact .undefinedRatio

variable [Scalar R]

theorem Exponent.ofScalar_ends (x : R) :
    Ends (ofScalar x : Except (Fault R) Rat) (fun _ => True) MeaningFault := by
  rw [ofScalar]
  split
  · exact .error .undefinedRatio
  · exact .error (.arithmetic _)
  · exact .ok True.intro

/-! ## Tokens -/

omit [Scalar R] in
theorem UnitToken.next_ends (unit : String) (column : Nat) (c : Char) (text : List Char) :
    Ends (next (R := R) unit column c text) (fun _ => True) TokenFault := by
  simp only [next]
  split
  · exact .error ⟨_, _, rfl⟩
  · exact .ok True.intro

omit [Scalar R] in
theorem UnitToken.scan_ends (unit : String) (limit column : Nat) (text : List Char) :
    Ends (scan (R := R) unit limit column text) (fun _ => True) TokenFault := by
  induction limit generalizing column text with
  | zero =>
    have hstop : scan (R := R) unit 0 column text = .ok [] := by cases text <;> rfl
    rw [hstop]
    exact .ok True.intro
  | succ limit ih =>
    rcases text with _ | ⟨c, rest⟩
    · rw [scan]
      exact .ok True.intro
    · rw [scan]
      exact (next_ends _ _ _ _).bind fun found _ => (ih _ _).bind fun _ _ => .ok True.intro

omit [Scalar R] in
theorem UnitToken.ofText_ends (unit : String) :
    Ends (ofText (R := R) unit) (fun _ => True) TokenFault :=
  scan_ends _ _ _ _

/-! ## Known factors -/

/-- All factors are known by name. -/
def ScaledTerms.Known (a : ScaledTerms R) : Prop :=
  CompoundUnit.Known ⟨a.terms⟩

namespace ScaledTerms.Known

variable {a b : ScaledTerms R}

theorem multiply (ha : a.Known) (hb : b.Known) : (a.multiply b).Known :=
  CompoundUnit.Known.append ha hb

theorem divide (ha : a.Known) (hb : b.Known) : Ends (a.divide b) ScaledTerms.Known MeaningFault := by
  refine (Checked.div_ends _ _).meaning_of_arithmetic.bind fun scale _ => ?_
  exact .ok (CompoundUnit.Known.append ha (CompoundUnit.Known.mapPower hb (-·)))

theorem pow (ha : a.Known) (k : Rat) : Ends (a.pow k) ScaledTerms.Known MeaningFault := by
  refine (Checked.powRat_ends _ _).meaning_of_arithmetic.bind fun scale _ => ?_
  exact .ok (CompoundUnit.Known.mapPower ha (· * k))

end ScaledTerms.Known

/-! ## Readers -/

theorem UnitReader.named_ends (name : String) :
    Ends (named name : Except (Fault R) (ScaledTerms R)) ScaledTerms.Known MeaningFault := by
  rw [named]
  split
  · rename_i r hr
    refine .ok fun t ht => ?_
    rw [List.mem_singleton.mp ht]
    exact ⟨name, r, hr, rfl⟩
  · exact .error (.unknownUnit _ _)

theorem ExponentExpression.evaluate_ends (e : ExponentExpression) :
    Ends (e.evaluate (R := R)) (fun _ => True) MeaningFault := by
  induction e with
  | number text => exact Exponent.ofScalar_ends _
  | negative text => exact (Exponent.ofScalar_ends _).bind fun k _ => .ok True.intro
  | ratio e d ihe ihd =>
    refine ihe.bind fun k _ => ihd.bind fun d _ => ?_
    split
    · exact .error (.arithmetic _)
    · exact .ok True.intro

theorem UnitExpression.evaluate_ends (s : UnitExpression) :
    Ends (s.evaluate (R := R)) ScaledTerms.Known MeaningFault := by
  induction s with
  | name text => exact UnitReader.named_ends text
  | number text => exact .ok fun t ht => absurd ht List.not_mem_nil
  | product s t ihs iht => exact ihs.bind fun a ha => iht.bind fun b hb => .ok (ha.multiply hb)
  | quotient s t ihs iht => exact ihs.bind fun a ha => iht.bind fun b hb => ha.divide hb
  | power s e ihs => exact ihs.bind fun a ha => e.evaluate_ends.bind fun k _ => ha.pow k

namespace UnitReader

theorem Explained.readingFault {unit : String} {tokens : List UnitToken} {f : Fault R}
    (h : Explained unit tokens f) : ReadingFault f := by
  cases h with
  | form issue h =>
    rw [h]
    exact .unitText unit issue
  | expression _ _ hfault => exact (UnitExpression.evaluate_ends _).reading_of_meaning.of_error hfault
  | exponent _ _ hfault => exact (ExponentExpression.evaluate_ends _).reading_of_meaning.of_error hfault

theorem all_ends (unit : String) (tokens : List UnitToken) :
    Ends (all unit tokens : Except (Fault R) (ScaledTerms R)) ScaledTerms.Known ReadingFault :=
  (all_explained unit tokens).mono (fun _ ⟨s, _, hs⟩ => s.evaluate_ends.of_ok hs)
    fun _ => Explained.readingFault

end UnitReader

namespace CompoundUnit

/-- **A unit that is read is canonical**, and all its factors are known by name. -/
theorem ofText_sound {text : String} {u : CompoundUnit ℝ} {scale : ℝ}
    (h : ofText text = .ok (u, scale)) : u.Known ∧ u.Canonical := by
  simp only [ofText] at h
  split at h
  · cases h
    exact ⟨known_one, canonical_one⟩
  · -- each stage that fails would be the fault of the whole
    rcases hread : UnitToken.ofText (R := ℝ) (Text.trimText text) with e | tokens
    · rw [hread] at h
      cases h
    rcases hall : UnitReader.all (R := ℝ) (Text.trimText text) tokens with e | read
    · rw [hread] at h
      simp only [bind, Except.bind, hall] at h
      cases h
    have hknown : Known ⟨read.terms⟩ := (UnitReader.all_ends _ _).of_ok hall
    obtain ⟨w, s, hw, hspec⟩ := canonicalize_spec hknown
    rw [hread] at h
    simp only [bind, Except.bind, hall, hw, pure, Except.pure] at h
    cases h
    exact ⟨hspec.known hknown, hspec.canonical⟩

end CompoundUnit

end Ballpark
