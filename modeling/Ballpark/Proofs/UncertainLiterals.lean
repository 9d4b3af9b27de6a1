import Ballpark.Proofs.LastPlace
import Ballpark.Proofs.Pinning
import Ballpark.Proofs.ProgramLexing

/-!
# Literals with an uncertain last place

A literal behind a tilde is uncertain in its last place: it is drawn evenly from half a unit of its last
significant digit below its value to half a unit above (`Session.sigFig_samples`), and a unit behind it
multiplies what is drawn. A last place that no number can have is refused, and nothing is drawn, even where
the value itself is zero (`Session.zero_beyond_range`).
-/

namespace Ballpark.Session

open Decimal Evaluation

/-! ## Bounds -/

/-- A last place beyond the range of numbers is refused, over any numbers. -/
theorem literalBounds_of_large {R : Type} [Scalar R] {literal : String}
    (h : maxPlace < lastPlace literal) :
    (literalBounds literal : Except (Fault R) (R × R)) = .error (.parameter (.literalRange literal)) := by
  rw [literalBounds, if_pos (by rw [Bool.or_eq_true, decide_eq_true_eq]; exact .inr h)]
  rfl

theorem lastPlaceHalf_eq (literal : String) :
    (lastPlaceHalf literal : Except (Fault ℝ) ℝ) = .ok (10 ^ lastPlace literal / 2) := by
  have hpower : Checked.pow (Scalar.ofNat 10 : ℝ) (lastPlace literal) = .ok (10 ^ lastPlace literal) := by
    rw [Scalar.ofNat_real, Checked.pow_of_pos (by norm_num), Real.rpow_intCast, Nat.cast_ofNat]
  have hhalf : (Scalar.ofRat 0.5 : ℝ) * 10 ^ lastPlace literal = 10 ^ lastPlace literal / 2 := by
    rw [Scalar.ofRat_real]
    norm_num
    ring
  simp only [lastPlaceHalf, Checked.ofInt_real, hpower, hhalf, bind, Except.bind, pure, Except.pure]

theorem literalBounds_of_small {literal : String} (h : lastPlace literal ≤ maxPlace) :
    (literalBounds literal : Except (Fault ℝ) (ℝ × ℝ)) =
      .ok ((ofText literal).value - 10 ^ lastPlace literal / 2,
        (ofText literal).value + 10 ^ lastPlace literal / 2) := by
  have hrange : ¬maxPlace < lastPlace literal := not_lt.mpr h
  simp only [literalBounds, Scalar.ofDecimal_real, Scalar.isFinite_real, hrange, lastPlaceHalf_eq]
  rfl

/-! ## Draws -/

/-- A literal whose last place is beyond the range of numbers draws nothing. -/
theorem run_sigFig_of_large {R S : Type} [Scalar R] [RandomSource S R] {literal : String}
    (h : maxPlace < lastPlace literal) (unit : Option String) (s : Session R S) :
    (sigFig literal unit).run s = (.error (.parameter (.literalRange literal)), s) := by
  rw [sigFig]
  exact run_bind_of_error (by rw [run_ofExcept, literalBounds_of_large h])

variable {S : Type} [RandomSource S ℝ]

/-- A literal is drawn evenly from half a unit of its last place to either side. -/
theorem run_sigFig_of_small {literal : String} (h : lastPlace literal ≤ maxPlace) (unit : Option String)
    (s : Session ℝ S) :
    let low : ℝ := (ofText literal).value - 10 ^ lastPlace literal / 2
    let high : ℝ := (ofText literal).value + 10 ^ lastPlace literal / 2
    let drawn := Draw.sampleOf RandomSource.uniform s.settings.sampleCount s.source
    (sigFig literal unit).run s =
      (withUnits (inUnit · ⟨.sample (drawn.1.map fun u => low + (high - low) * u), .one⟩ unit)).run
        { s with source := drawn.2 } := by
  intro low high drawn
  have horder : low < high := by
    have hpos : (0 : ℝ) < 10 ^ lastPlace literal := zpow_pos (by norm_num) _
    simp only [low, high]
    linarith
  have hbounds : (Evaluation.ofExcept (literalBounds literal) : Evaluation ℝ S _).run s = (.ok (low, high), s) := by
    rw [run_ofExcept, literalBounds_of_small h]
  have hdraw := Sampler.uniform_run horder s.settings.sampleCount .one s.source
  rw [sigFig, run_bind_of_ok hbounds]
  exact run_bind_of_ok (RangeForm.run_drawnIn (f := fun _ frame => Sampler.uniform low high frame) hdraw)

/-- **A literal is uncertain by half a unit of its last significant digit.** For every literal of ASCII that
the tokenizer finds in a text: the value is the sum of its digits with their places, the last place is that
of the last significant digit, and the literal behind a tilde is drawn evenly from half a unit of that place
below its value to half a unit above, unless the place is beyond the range of numbers; there it is
refused, and nothing is drawn. -/
theorem sigFig_samples {text : List Char} {literal : String}
    (hfront : Piece.numberFront text = literal.toList) (hsome : literal ≠ "")
    (hascii : ∀ c ∈ literal.toList, c.toNat < 0x80) :
    let value := (ofText literal).value
    let place := lastPlace literal
    value = ((digitPlaces literal).map fun p => (p.1 : ℚ) * 10 ^ p.2).sum ∧
    IsLastPlace literal place ∧
    ∀ (unit : Option String) (s : Session ℝ S),
      (place ≤ maxPlace →
        let low : ℝ := value - 10 ^ place / 2
        let high : ℝ := value + 10 ^ place / 2
        let drawn := Draw.sampleOf RandomSource.uniform s.settings.sampleCount s.source
        (sigFig literal unit).run s =
          (withUnits (inUnit · ⟨.sample (drawn.1.map fun u => low + (high - low) * u), .one⟩ unit)).run
            { s with source := drawn.2 }) ∧
      (maxPlace < place →
        (sigFig literal unit).run s = (.error (.parameter (.literalRange literal)), s)) := by
  have hnumber : UnitToken.IsNumber literal.toList := by
    rw [← hfront]
    exact Piece.isNumber_numberFront (by rwa [hfront, ne_eq, String.toList_eq_nil_iff])
  obtain ⟨whole, places, shift, hparts⟩ := exists_parts hnumber
  exact ⟨hparts.value_eq_sum, hparts.isLastPlace hascii, fun unit s =>
    ⟨fun h => run_sigFig_of_small h unit s, fun h => run_sigFig_of_large h unit s⟩⟩

/-- Behind a tilde, fifteen hundred is uncertain by fifty: halfway between the bounds lies the value. -/
theorem sigFig_fifteen_hundred :
    Piece.numberFront "1500 m".toList = "1500".toList ∧ lastPlace "1500" = 2 ∧
      IsLastPlace "1500" (lastPlace "1500") ∧
      (sigFig "1500" none).run counting =
        (.ok ⟨.sample ⟨1450 + (1550 - 1450) * (1 / 2), []⟩, .one⟩, { counting with source := ⟨1⟩ }) := by
  have hfront : Piece.numberFront "1500 m".toList = "1500".toList := by decide +kernel
  have hplace : lastPlace "1500" = 2 := by decide +kernel
  have hvalue : (ofText "1500").value = 1500 := by decide +kernel
  obtain ⟨-, hlast, hrun⟩ := sigFig_samples (S := CountingSource) hfront (by decide) (by simp)
  refine ⟨hfront, hplace, hlast, ((hrun none counting).1 (hplace ▸ by decide)).trans ?_⟩
  have hcount : counting.settings.sampleCount = ⟨1, one_pos⟩ := rfl
  have hsource : counting.source = ⟨0⟩ := rfl
  have hplain : ∀ (units : Bindings (Quantity ℝ)) (q : Quantity ℝ), inUnit units q none = .ok q :=
    fun _ _ => rfl
  rw [hplace, hvalue, hcount, hsource, run_withUnits, hplain, sampleOf_counting]
  refine Prod.ext ?_ rfl
  norm_num [Sample.map]

/-- The last place of this zero is beyond the range of numbers, so that it is refused behind a tilde. -/
theorem zero_beyond_range :
    Piece.numberFront "0e309".toList = "0e309".toList ∧ (ofText "0e309").value = 0 ∧
      lastPlace "0e309" = 309 ∧
      (evaluate "~0e309").run counting = (.error (.parameter (.literalRange "0e309")), counting) := by
  have hplace : lastPlace "0e309" = 309 := by decide +kernel
  have hparsed : Node.statementsOfText "~0e309" = .ok [.sigFig "0e309" none] :=
    Node.statementsOfText_of_toOption (by decide +kernel)
  have hrefused := run_sigFig_of_large (hplace ▸ (by decide) : maxPlace < lastPlace "0e309") none counting
  refine ⟨by decide +kernel, by decide +kernel, hplace, ?_⟩
  rw [run_evaluate_of_parsed hparsed, evaluateLast, evaluateNode]
  exact run_bind_of_error (run_map_of_error hrefused)

end Ballpark.Session
