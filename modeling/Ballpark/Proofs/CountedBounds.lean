import Ballpark.Proofs.RangeScale

/-!
# Counting words behind both bounds

A counting word behind the upper literal of `low to high` is carried over to a lower bound that has no
unit: `100 to 200 million` starts at a hundred million. Whether the lower bound has a unit is asked of
its value, though, and a literal with a counting word has a plain value, the word being multiplied in
already. So the upper word is multiplied in once more (`RangeForm.run_counted`), and
`1 thousand to 2 million` starts at a thousand million, above its end.

`Session.counted_range_iff` says where this makes no difference: the lower bound is zero, or there is no
interval with either bound. A counting word is never one, so everywhere else a random source whose
numbers lie at the lower end tells the two apart.
-/

namespace Ballpark

open Session Evaluation RangeForm

/-- A literal with a text behind it, or its opposite. -/
def Node.literal (opposite : Bool) (x : Decimal) (word : Option String) : Node :=
  if opposite then .unary .negate (.number x word) else .number x word

/-- The number of a literal, or its opposite. -/
noncomputable def Decimal.signed (opposite : Bool) (x : Decimal) : ℝ :=
  if opposite then -x.value else x.value

theorem Decimal.signed_eq_zero (opposite : Bool) (x : Decimal) : x.signed opposite = 0 ↔ x.value = 0 := by
  cases opposite with
  | false => exact Rat.cast_eq_zero
  | true => exact neg_eq_zero.trans Rat.cast_eq_zero

namespace RangeForm

/-- The range `low to high` of two literals, the upper one with a word behind it. -/
def counted (opposite : Bool) (a : Decimal) (lowWord : Option String) (b : Decimal) (highWord : String) :
    Node :=
  interval.node (.literal opposite a lowWord) (.number b (some highWord)) none

/-- How many a word counts; no word counts one. -/
inductive Counts : Option String → Rat → Prop
  | bare : Counts none 1
  | word {text : String} {count : Rat}
    (h : Vocabulary.countingWord? (Text.trimText text) = some count) : Counts (some text) count

variable {S : Type} [RandomSource S ℝ]

/-- The value of a literal with a counting word is a plain number. -/
theorem run_counts {word : Option String} {count : Rat} (h : Counts word count) (x : Decimal)
    (body : TreeEvaluation ℝ S) (F : Frames ℝ) (s : Session ℝ S) :
    (required (.number x word) (evaluateNode body F (.number x word))).run s =
      (.ok (.plain (x.value * count)), s) := by
  cases h with
  | bare => rw [run_number, Rat.cast_one, mul_one]
  | word h =>
    rw [run_literal body F x (unitQuantity_countingWord s.units h), Quantity.plain, Quantity.map,
      Value.map, mul_comm]
    rfl

theorem run_signedCounts {word : Option String} {count : Rat} (h : Counts word count) (opposite : Bool)
    (x : Decimal) (body : TreeEvaluation ℝ S) (F : Frames ℝ) (s : Session ℝ S) :
    (required (.literal opposite x word) (evaluateNode body F (.literal opposite x word))).run s =
      (.ok (.plain (x.signed opposite * count)), s) := by
  cases opposite with
  | false => exact run_counts h x body F s
  | true =>
    have hsigned : x.signed true * count = -(x.value * count) := neg_mul _ _
    rw [hsigned, run_required_eq_ok, Node.literal, if_pos rfl, evaluateNode,
      run_bind_of_ok (run_counts h x body F s), run_some_eq_ok]
    rfl

/-- **The bounds that are handed over.** The word behind the upper bound is multiplied into the lower
bound, whether that has a word of its own or not. -/
theorem run_counted {lowWord : Option String} {highWord : String} {count count' : Rat}
    (hlow : Counts lowWord count) (hhigh : Counts (some highWord) count') (opposite : Bool) (a b : Decimal)
    (s : Session ℝ S) :
    (evaluateTree (counted opposite a lowWord b highWord)).run s =
      (some <$> sampleIn .one (interval.sampler (a.signed opposite * count * count')
        (b.value * count'))).run s := by
  have hbounds : interval.bounds s.units (.number b (some highWord)) (.plain (a.signed opposite * count))
      (.plain (b.value * count')) none = .ok ⟨a.signed opposite * count * count', b.value * count', .one⟩ := by
    cases hhigh with
    | word h =>
      simp only [bounds, strictBounds, written?_none, ownBounds, hasUnit_plain, literalCount?, h]
      rfl
  rw [evaluateTree, evaluateWithin, counted,
    run_node interval (run_signedCounts hlow opposite a _ _ s) (run_counts hhigh b _ _ s) hbounds]

end RangeForm

namespace Session

/-- **Counting words behind both bounds.** Every session hands the sampler of `a W to b V` the bounds
`a * W * V` and `b * V`, and that of `a to b V` the bounds `a * V` and `b * V`. With the settings of a
session that can come about, `a W to b V` has the outcome of the range from `a * W` to `b * V` with every
random source exactly if `a` is zero, or the sampler refuses both. -/
theorem counted_range_iff {S₀ : Type} [RandomSource S₀ ℝ] {s₀ : Session ℝ S₀} (hs₀ : Reachable s₀)
    (opposite : Bool) (a b : Decimal) {lowWord highWord : String} {count count' : Rat}
    (hlow : Vocabulary.countingWord? (Text.trimText lowWord) = some count)
    (hhigh : Vocabulary.countingWord? (Text.trimText highWord) = some count') :
    (∀ (S : Type) [RandomSource S ℝ] (s : Session ℝ S),
      outcome (counted opposite a (some lowWord) b highWord) s =
        drawnFrom interval .one (a.signed opposite * count * count') (b.value * count') s ∧
      outcome (counted opposite a none b highWord) s =
        drawnFrom interval .one (a.signed opposite * count') (b.value * count') s) ∧
    ((∀ (S : Type) [RandomSource S ℝ] (s : Session ℝ S), s.settings = s₀.settings →
      SameOutcome (outcome (counted opposite a (some lowWord) b highWord) s)
        (drawnFrom interval .one (a.signed opposite * count) (b.value * count') s)) ↔
      a.value = 0 ∨ (interval.Refuses (a.signed opposite * count * count') (b.value * count') ∧
        interval.Refuses (a.signed opposite * count) (b.value * count'))) := by
  have hrun : ∀ (S : Type) [RandomSource S ℝ] (s : Session ℝ S),
      outcome (counted opposite a (some lowWord) b highWord) s =
        drawnFrom interval .one (a.signed opposite * count * count') (b.value * count') s := by
    intro S _ s
    rw [outcome, run_counted (.word hlow) (.word hhigh)]
  have hzero : a.value = 0 ↔ a.signed opposite * count * count' = a.signed opposite * count := by
    have hpos : (count : ℝ) ≠ 0 := by exact_mod_cast (countingWord_pos hlow).ne'
    have hne : (count' : ℝ) ≠ 1 := by exact_mod_cast countingWord_ne_one hhigh
    rw [mul_right_eq_self₀, or_iff_right hne, mul_eq_zero, or_iff_left hpos, a.signed_eq_zero]
  refine ⟨fun S _ s => ⟨hrun S s, ?_⟩, fun hsame => ?_, fun hirrelevant S _ s _ => ?_⟩
  · rw [outcome, run_counted .bare (.word hhigh), Rat.cast_one, mul_one]
  · by_contra hrelevant
    rw [hzero, not_or] at hrelevant
    -- a session with every number at the lower end
    have hmass := hs₀.sound.1
    have hsettings := hsame _
      (Session.ofSource s₀.settings ⟨0, -(√2 * erfInv s₀.settings.confidence.toScalar)⟩ :
        Session ℝ (ConstantSource ℝ)) rfl
    rw [hrun] at hsettings
    exact not_sameOutcome_of_bounds (Sampler.centralBound_eq hmass) (Sampler.centralBound_pos hmass) rfl
      CompoundUnit.known_one hrelevant.1 hrelevant.2 hsettings
  · rw [hrun]
    exact sameOutcome_of_bounds s .one (hirrelevant.imp_left hzero.mp)

/-! ## One thousand to two million -/

/-- The range `1 thousand to 2 million`. -/
def thousandToMillions : Node :=
  counted false ⟨false, 1, 0⟩ (some "thousand") ⟨false, 2, 0⟩ "million"

theorem countingWord_thousand : Vocabulary.countingWord? (Text.trimText "thousand") = some 1000 := by
  decide +kernel

theorem countingWord_million : Vocabulary.countingWord? (Text.trimText "million") = some 1000000 := by
  decide +kernel

theorem signed_one : Decimal.signed false ⟨false, 1, 0⟩ = 1 := by
  rw [Decimal.signed, if_neg Bool.false_ne_true, (by decide : Decimal.value ⟨false, 1, 0⟩ = 1), Rat.cast_one]

theorem value_two : ((Decimal.value ⟨false, 2, 0⟩ : Rat) : ℝ) = 2 := by
  rw [(by decide : Decimal.value ⟨false, 2, 0⟩ = 2), Rat.cast_ofNat]

/-- The word behind the two is multiplied into the thousand, so that the range is refused as a range
from a thousand million down to two million. -/
theorem thousandToMillions_refused :
    (∃ p, outcome thousandToMillions atLowEnd = .error (.parameter p)) ∧
      ¬∀ (S : Type) [RandomSource S ℝ] (s : Session ℝ S), s.settings = threeParticles →
        SameOutcome (outcome thousandToMillions s) (drawnFrom interval .one 1000 2000000 s) := by
  obtain ⟨hbounds, hiff⟩ := counted_range_iff reachable_atLowEnd false ⟨false, 1, 0⟩ ⟨false, 2, 0⟩
    countingWord_thousand countingWord_million
  constructor
  · have hrefused : interval.Refuses (1 * ((1000 : Rat) : ℝ) * ((1000000 : Rat) : ℝ))
        (2 * ((1000000 : Rat) : ℝ)) := by
      norm_num [RangeForm.Refuses]
    obtain ⟨p, hp⟩ := sampler_refused hrefused threeParticles.confidence (atLowEnd.frame .one)
      atLowEnd.source
    have houtcome := (hbounds _ atLowEnd).1
    rw [signed_one, value_two, drawnFrom, run_sampleIn hp] at houtcome
    exact ⟨p, houtcome⟩
  · intro hsame
    have hwords : ∀ (S : Type) [RandomSource S ℝ] (s : Session ℝ S), s.settings = threeParticles →
        SameOutcome (outcome thousandToMillions s) (drawnFrom interval .one
          (Decimal.signed false ⟨false, 1, 0⟩ * ((1000 : Rat) : ℝ))
          ((Decimal.value ⟨false, 2, 0⟩ : Rat) * ((1000000 : Rat) : ℝ)) s) := by
      intro S _ s hs
      rw [signed_one, value_two]
      norm_num
      exact hsame S s hs
    rcases hiff.mp hwords with hzero | ⟨-, hrefused⟩
    · exact absurd hzero (by decide)
    · rw [signed_one, value_two] at hrefused
      norm_num [RangeForm.Refuses] at hrefused

/-- The two words do not make a range from a thousand to two million. -/
theorem thousandToMillions_not_as_written :
    ¬SameOutcome (outcome thousandToMillions atLowEnd)
      (drawnFrom interval .one 1000 2000000 atLowEnd) := by
  have hmass : Sampler.IsMass threeParticles.confidence := reachable_atLowEnd.sound.1
  have haccepted : ¬interval.Refuses 1000 2000000 := by norm_num [RangeForm.Refuses]
  have hne : (1 * ((1000 : Rat) : ℝ) * ((1000000 : Rat) : ℝ)) ≠ 1000 := by norm_num
  have hend : 2 * ((1000000 : Rat) : ℝ) = 2000000 := by norm_num
  rw [outcome, thousandToMillions, run_counted (.word countingWord_thousand) (.word countingWord_million),
    signed_one, value_two, hend]
  exact not_sameOutcome_of_bounds (Sampler.centralBound_eq hmass) (Sampler.centralBound_pos hmass) rfl
    CompoundUnit.known_one hne fun hrefused => haccepted hrefused.2

end Session

end Ballpark
