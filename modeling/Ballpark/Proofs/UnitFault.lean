import Ballpark.Proofs.BaseUnit
import Ballpark.Proofs.EvaluationOutcome

/-!
# What reading a unit fails with

Reading a unit is documented to fail with a text that does not parse or with a name that is not known. But
it computes while it reads, and a computation may have no result: a quotient by a number that is zero, an
exponent that is infinite or has the denominator zero, a power that is too large or raises zero to a
negative exponent, and last the folding of the factors. No guard stands around these, so their faults leave
the reader.

The operations that have no result are told from the expression (`UnitExpression.Breaks`). A text fails in
an undocumented way only if such an operation stands among its tokens, and if its tokens write an expression
all of whose names are known, it fails exactly then (`CompoundUnit.ofText_faults`).
-/

namespace Ballpark

/-- The faults of arithmetic, which are not documented for units. -/
def Fault.IsArithmetic {R : Type} (f : Fault R) : Prop :=
  f.kind = .zeroDivision ∨ f.kind = .overflow

theorem Fault.isArithmetic {R : Type} (cause : ArithmeticFault) :
    (Fault.arithmetic cause : Fault R).IsArithmetic := by
  rw [IsArithmetic, Fault.kind]
  cases cause.isOverflow
  · exact .inl rfl
  · exact .inr rfl

variable {R : Type} [Scalar R]

/-! ## Operations without a result -/

/-- Some operation in an exponent has no result. -/
def ExponentExpression.Breaks (R : Type) [Scalar R] : ExponentExpression → Prop
  | number text | negative text =>
    ∃ below, Scalar.exact (Scalar.ofDecimal (Decimal.ofText text) : R) = .infinite below
  | ratio above below => above.Breaks R ∨ below.Breaks R ∨ below.evaluate (R := R) = .ok 0

namespace UnitExpression

/-- Some operation in an expression has operands, but no result. -/
def Breaks (R : Type) [Scalar R] : UnitExpression → Prop
  | name _ | number _ => False
  | product left right => left.Breaks R ∨ right.Breaks R
  | quotient above below => above.Breaks R ∨ below.Breaks R ∨
      ∃ b : ScaledTerms R, below.evaluate = .ok b ∧ Scalar.isZero b.scale = true
  | power base exponent => base.Breaks R ∨ exponent.Breaks R ∨
      ∃ (a : ScaledTerms R) (k : Rat) (f : Fault R), base.evaluate = .ok a ∧
        exponent.evaluate (R := R) = .ok k ∧ Checked.powRat a.scale k = .error f

/-- All names of an expression are known. -/
def IsNamed : UnitExpression → Prop
  | name text => UnitName.isKnown text = true
  | number _ => True
  | product left right => left.IsNamed ∧ right.IsNamed
  | quotient above below => above.IsNamed ∧ below.IsNamed
  | power base _ => base.IsNamed

/-- Why an expression has no value: an operation has no result, or a name is not known. -/
inductive NoValue (s : UnitExpression) : Fault R → Prop
  | breaks (cause : ArithmeticFault) (h : s.Breaks R) : NoValue s (.arithmetic cause)
  | unnamed (name : String) (hints : List String) (h : ¬s.IsNamed) : NoValue s (.unknownUnit name hints)

theorem NoValue.mono {s t : UnitExpression} {f : Fault R} (h : s.NoValue f)
    (hbreaks : s.Breaks R → t.Breaks R) (hnamed : t.IsNamed → s.IsNamed) : t.NoValue f := by
  cases h with
  | breaks cause h => exact .breaks cause (hbreaks h)
  | unnamed name hints h => exact .unnamed name hints fun ht => h (hnamed ht)

end UnitExpression

/-! ## The faults of values -/

section Faults

variable (hliterals : ∀ d, Scalar.exact (Scalar.ofDecimal d : R) ≠ .undefined)
include hliterals

theorem Exponent.ofScalar_fault (d : Decimal) :
    Ends (ofScalar (Scalar.ofDecimal d : R) : Except (Fault R) Rat)
      (fun _ => ¬∃ below, Scalar.exact (Scalar.ofDecimal d : R) = .infinite below)
      fun f => (∃ cause, f = .arithmetic cause) ∧
        ∃ below, Scalar.exact (Scalar.ofDecimal d : R) = .infinite below := by
  rw [ofScalar]
  split
  · rename_i h
    exact absurd h (hliterals d)
  · rename_i below h
    exact .error ⟨⟨_, rfl⟩, below, h⟩
  · rename_i h
    refine .ok ?_
    rintro ⟨below, hbelow⟩
    rw [h] at hbelow
    cases hbelow

/-- An exponent has a value exactly if all its operations have a result. -/
theorem ExponentExpression.evaluate_fault (e : ExponentExpression) :
    Ends (e.evaluate (R := R)) (fun _ => ¬e.Breaks R)
      fun f => (∃ cause, f = .arithmetic cause) ∧ e.Breaks R := by
  induction e with
  | number text => exact Exponent.ofScalar_fault hliterals _
  | negative text => exact (Exponent.ofScalar_fault hliterals _).bind fun k hk => .ok hk
  | ratio above below ihabove ihbelow =>
    refine ihabove.bind_of_ok (fun f hf => ⟨hf.1, .inl hf.2⟩) fun k _ habove => ?_
    refine ihbelow.bind_of_ok (fun f hf => ⟨hf.1, .inr (.inl hf.2)⟩) fun d hd hbelow => ?_
    split
    · rename_i hzero
      exact .error ⟨⟨_, rfl⟩, .inr (.inr (hzero ▸ hd))⟩
    · rename_i hzero
      refine .ok ?_
      rintro (h | h | h)
      · exact habove h
      · exact hbelow h
      · exact hzero (Except.ok.inj (hd.symm.trans h))

/-- An expression has a value exactly if all its names are known and all its operations have a result. -/
theorem UnitExpression.evaluate_fault (s : UnitExpression) :
    Ends (s.evaluate (R := R)) (fun _ => s.IsNamed ∧ ¬s.Breaks R) s.NoValue := by
  induction s with
  | name text =>
    rw [evaluate, UnitReader.named]
    split
    · rename_i r hr
      exact .ok ⟨by rw [IsNamed, UnitName.isKnown, hr]; rfl, id⟩
    · rename_i hnone
      refine .error (.unnamed _ _ ?_)
      rw [IsNamed, UnitName.isKnown, hnone]
      exact Bool.false_ne_true
  | number text => exact .ok ⟨trivial, id⟩
  | product left right ihleft ihright =>
    refine ihleft.bind_of_ok (fun f hf => hf.mono .inl And.left) fun a _ hleft => ?_
    refine ihright.bind_of_ok (fun f hf => hf.mono .inr And.right) fun b _ hright => ?_
    exact .ok ⟨⟨hleft.1, hright.1⟩, fun h => h.elim hleft.2 hright.2⟩
  -- a quotient breaks where one of its parts does, or at a scale of zero
  | quotient above below ihabove ihbelow =>
    refine ihabove.bind_of_ok (fun f hf => hf.mono .inl And.left) fun a _ habove => ?_
    refine ihbelow.bind_of_ok (fun f hf => hf.mono (.inr ∘ .inl) And.right) fun b hb hbelow => ?_
    rw [ScaledTerms.divide, Checked.div]
    split
    · rename_i hzero
      exact .error (.breaks _ (.inr (.inr ⟨b, hb, hzero⟩)))
    · rename_i hzero
      refine .ok ⟨⟨habove.1, hbelow.1⟩, ?_⟩
      rintro (h | h | ⟨c, hc, hzero'⟩)
      · exact habove.2 h
      · exact hbelow.2 h
      · obtain rfl := Except.ok.inj (hb.symm.trans hc)
        exact hzero hzero'
  -- a power breaks where one of its parts does, or at a scale that has no such power
  | power base exponent ihbase =>
    have hexponent := exponent.evaluate_fault hliterals
    refine ihbase.bind_of_ok (fun f hf => hf.mono .inl id) fun a ha hbase => ?_
    refine hexponent.bind_of_ok ?_ fun k hk hexponent => ?_
    · rintro f ⟨⟨cause, rfl⟩, hf⟩
      exact .breaks cause (.inr (.inl hf))
    rw [ScaledTerms.pow]
    rcases hpow : Checked.powRat a.scale k with f | scale
    · obtain ⟨cause, rfl⟩ := (Checked.powRat_ends a.scale k).of_error hpow
      exact .error (.breaks cause (.inr (.inr ⟨a, k, _, ha, hk, hpow⟩)))
    · refine .ok ⟨hbase.1, ?_⟩
      rintro (h | h | ⟨c, j, f, hc, hj, hf⟩)
      · exact hbase.2 h
      · exact hexponent h
      · obtain rfl := Except.ok.inj (ha.symm.trans hc)
        obtain rfl := Except.ok.inj (hk.symm.trans hj)
        cases hpow.symm.trans hf

end Faults

/-! ## The faults of texts -/

namespace CompoundUnit

/-- The factors of an expression cannot be folded into a unit. -/
def FoldBreaks (R : Type) [Scalar R] (s : UnitExpression) : Prop :=
  ∃ (a : ScaledTerms R) (f : Fault R), s.evaluate = .ok a ∧ canonicalize a.terms = .error f

/-- Some operation of a text has no result: it stands in an expression or an exponent among the tokens, or
it folds the factors of the expression that all of them write. -/
inductive TokensBreak (R : Type) [Scalar R] (tokens : List UnitToken) : Prop
  | expression {s : UnitExpression} {part : List UnitToken} (hpart : part <:+: tokens)
      (h : s.Writes .quotient part) (hbreaks : s.Breaks R)
  | exponent {e : ExponentExpression} {part : List UnitToken} (hpart : part <:+: tokens)
      (h : e.Writes .enclosed part) (hbreaks : e.Breaks R)
  | fold {s : UnitExpression} (h : s.Writes .quotient tokens) (hbreaks : FoldBreaks R s)

/-- **How reading a unit fails.** Every failure is documented, or it is a fault of arithmetic and an operation
among the tokens has no result. If the tokens write an expression all of whose names are known, the text
fails exactly if one of its operations has no result, and always in an undocumented way. -/
theorem ofText_faults (hliterals : ∀ d, Scalar.exact (Scalar.ofDecimal d : R) ≠ .undefined)
    (text : String) :
    (∀ f : Fault R, ofText text = .error f → f.kind = .parse ∨ f.kind = .unknownUnit ∨
      f.IsArithmetic ∧ ∃ tokens, UnitToken.ofText (R := R) (Text.trimText text) = .ok tokens ∧
        TokensBreak R tokens) ∧
    ∀ tokens (s : UnitExpression), UnitToken.ofText (R := R) (Text.trimText text) = .ok tokens →
      s.Writes .quotient tokens → s.IsNamed →
      (∀ f : Fault R, ofText text = .error f → f.IsArithmetic) ∧
        ((∃ f : Fault R, ofText text = .error f) ↔ s.Breaks R ∨ FoldBreaks R s) := by
  refine ⟨fun f h => ?_, fun tokens s htokens hwrites hnamed => ?_⟩
  · rw [ofText] at h
    simp only at h
    split at h
    · cases h
    rcases error_of_bind h with htokens | ⟨tokens, htokens, h⟩
    · -- the text has no tokens
      obtain ⟨unit, issue, rfl⟩ := (UnitToken.ofText_ends _).of_error htokens
      exact .inl rfl
    rcases error_of_bind h with hall | ⟨read, hall, h⟩
    · -- the reader stopped: at the form of the tokens, at an expression, or at an exponent
      cases (UnitReader.all_explained _ _).of_error hall with
      | form issue hf => exact .inl (hf ▸ rfl)
      | @expression s part hpart hwrites hf =>
        cases (s.evaluate_fault hliterals).of_error hf with
        | breaks cause hbreaks =>
          exact .inr (.inr ⟨Fault.isArithmetic cause, tokens, htokens, .expression hpart hwrites hbreaks⟩)
        | unnamed => exact .inr (.inl rfl)
      | @exponent e part hpart hwrites hf =>
        obtain ⟨⟨cause, rfl⟩, hbreaks⟩ := (e.evaluate_fault hliterals).of_error hf
        exact .inr (.inr ⟨Fault.isArithmetic cause, tokens, htokens, .exponent hpart hwrites hbreaks⟩)
    · obtain ⟨s, hwrites, hs⟩ := (UnitReader.all_explained _ _).of_ok hall
      -- all is read, and only the canonical form may still fail
      rcases error_of_bind h with hfold | ⟨_, _, h⟩
      · obtain ⟨cause, rfl⟩ := (canonicalize_ends _).of_error hfold
        exact .inr (.inr ⟨Fault.isArithmetic cause, tokens, htokens, .fold hwrites ⟨read, _, hs, hfold⟩⟩)
      · cases h
  · rw [ofText_of_writes htokens hwrites]
    have hvalue := s.evaluate_fault hliterals
    -- all names are known, so what has no value breaks
    rcases hs : s.evaluate (R := R) with f | read
    · cases hvalue.of_error hs with
      | breaks cause hbreaks =>
        refine ⟨fun f hf => ?_, fun _ => .inl hbreaks, fun _ => ⟨_, rfl⟩⟩
        cases hf
        exact Fault.isArithmetic cause
      | unnamed _ _ hunnamed => exact absurd hnamed hunnamed
    have hunbroken := (hvalue.of_ok hs).2
    simp only [bind, Except.bind]
    rcases hfold : canonicalize read.terms with f | ⟨u, scale⟩
    · obtain ⟨cause, rfl⟩ := (canonicalize_ends _).of_error hfold
      refine ⟨fun f hf => ?_, fun _ => .inr ⟨read, _, hs, hfold⟩, fun _ => ⟨_, rfl⟩⟩
      cases hf
      exact Fault.isArithmetic cause
    · -- the unit is read
      refine ⟨fun f hf => ?_, fun hf => ?_, ?_⟩
      · cases hf
      · obtain ⟨f, hf⟩ := hf
        cases hf
      rintro (hbreaks | ⟨a, f, ha, hf⟩)
      · exact absurd hbreaks hunbroken
      · obtain rfl := Except.ok.inj (hs.symm.trans ha)
        cases hfold.symm.trans hf

/-! ### A metre over a number -/

/-- A metre over a number. -/
def metreOver (text : String) : UnitExpression :=
  .quotient (.name "m") (.number text)

theorem metreOver_writes (text : String) :
    (metreOver text).Writes .quotient [.name "m", .mark "/", .number text] := by
  have hmetre : (UnitExpression.name "m").Writes .quotient [.name "m"] := .product (.power (.atom .name))
  exact hmetre.divided (.power (.atom .number))

theorem isKnown_m : UnitName.isKnown "m" = true := by
  obtain ⟨e, he, -⟩ := Vocabulary.lookup?_symbol .length
  rw [show "m" = Base.length.symbol from rfl, UnitName.isKnown,
    UnitName.resolve?_symbol _ (Base.mem_all _), he]
  rfl

theorem metreOver_breaks {text : String} (h : (metreOver text).Breaks ℝ) :
    (Decimal.ofText text).value = 0 := by
  obtain h | h | ⟨b, hb, hzero⟩ := h
  · exact h.elim
  · exact h.elim
  · cases hb
    simpa using hzero

/-- Real factors can always be folded. -/
theorem not_foldBreaks (s : UnitExpression) : ¬FoldBreaks ℝ s := by
  rintro ⟨a, f, ha, hf⟩
  obtain ⟨u, scale, hfold, -⟩ := canonicalize_spec (s.evaluate_ends.of_ok ha)
  cases hf.symm.trans hfold

/-- A metre can be halved. -/
theorem metre_halved : ¬∃ f : Fault ℝ, ofText "m / 2" = .error f := by
  have hliterals : ∀ d, Scalar.exact (Scalar.ofDecimal d : ℝ) ≠ .undefined := fun d h => by simp at h
  have hvalue : (Decimal.ofText "2").value ≠ 0 := by decide +kernel
  have hfaults := (ofText_faults hliterals "m / 2").2 _ _ rfl (metreOver_writes "2") ⟨isKnown_m, trivial⟩
  rw [hfaults.2]
  rintro (h | h)
  · exact hvalue (metreOver_breaks h)
  · exact not_foldBreaks _ h

/-- A metre over zero is well written, and its fault is not documented. -/
theorem metre_over_zero : ∃ f : Fault ℝ, ofText "m / 0" = .error f ∧ f.kind = .zeroDivision := by
  have hzero : Scalar.isZero (Scalar.ofDecimal (Decimal.ofText "0") : ℝ) = true := by
    have hvalue : (Decimal.ofText "0").value = 0 := by decide +kernel
    simp [hvalue]
  obtain ⟨r, hr⟩ := Option.isSome_iff_exists.mp isKnown_m
  have hmetre : (UnitExpression.name "m").evaluate (R := ℝ) =
      .ok ⟨[⟨r.symbol, r.meaning.toUnit, 1⟩], r.scale⟩ := by
    rw [UnitExpression.evaluate, UnitReader.named, hr]
  have hbroken : (metreOver "0").evaluate (R := ℝ) = .error (.arithmetic .divisionByZero) := by
    rw [metreOver, UnitExpression.evaluate_quotient hmetre rfl, ScaledTerms.divide, Checked.div,
      if_pos hzero]
    rfl
  have htokens : UnitToken.ofText (R := ℝ) (Text.trimText "m / 0") =
      .ok [.name "m", .mark "/", .number "0"] := rfl
  refine ⟨.arithmetic .divisionByZero, ?_, rfl⟩
  rw [ofText_of_writes htokens (metreOver_writes "0"), hbroken]
  rfl

end CompoundUnit

end Ballpark
