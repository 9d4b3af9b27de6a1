import Mathlib.Data.Int.Log
import Ballpark.Proofs.Numeral
import Ballpark.Proofs.Outcome
import Ballpark.Proofs.RealNumber
import Ballpark.Summary

/-!
# Reported places

A value is reported with its uncertainty in two ways, as a pair of numbers and as a text. Both round to
the place of the uncertainty's first figure, of its second if the first is a one, and the text denotes
the numbers of the pair (`Summary.withUncertainty_denotes_roundedPair`). The rounded uncertainty is
within a quarter of the uncertainty, so it is never zero and is never rounded a second time.
-/

namespace Ballpark

namespace Text

theorem trimStart_append {front : List Char} (hfront : front ≠ [])
    (hplain : ∀ c ∈ front, isBlank c = false) (back : List Char) :
    trimStart (front ++ back) = front ++ back := by
  obtain ⟨c, front, rfl⟩ := List.exists_cons_of_ne_nil hfront
  have hc : ¬isBlank c = true := by simp [hplain c List.mem_cons_self]
  rw [trimStart, List.cons_append, List.dropWhile_cons_of_neg hc]

/-- Blanks at the end are behind the last character that is none. -/
theorem trimEnd_append {middle : List Char} (hmiddle : middle ≠ [])
    (hplain : ∀ c ∈ middle, isBlank c = false) (front back : List Char) :
    trimEnd (front ++ middle ++ back) = front ++ middle ++ trimEnd back := by
  obtain ⟨c, rest, hlast⟩ := List.exists_cons_of_ne_nil (List.reverse_ne_nil_iff.mpr hmiddle)
  have hc : ¬isBlank c = true := by
    simp [hplain c (List.mem_reverse.mp (hlast ▸ List.mem_cons_self))]
  have hkept : ((front ++ middle).reverse).dropWhile isBlank = (front ++ middle).reverse := by
    rw [List.reverse_append, hlast, List.cons_append, List.dropWhile_cons_of_neg hc]
  rw [trimEnd, List.reverse_append, List.dropWhile_append, hkept]
  split
  · rename_i hblank
    rw [trimEnd, List.isEmpty_iff.mp hblank, List.reverse_reverse, List.reverse_nil, List.append_nil]
  · rw [List.reverse_append, List.reverse_reverse, trimEnd]

end Text

namespace Decimal.Numeral

theorem not_isBlank_of_mem_text (n : Numeral) {c : Char} (hc : c ∈ n.text.toList) :
    Text.isBlank c = false := by
  have hdigit : ∀ c ∈ n.whole ++ n.decimals, Text.isBlank c = false := by
    intro c hc
    obtain ⟨d, hd, rfl⟩ := n.exists_digit c hc
    interval_cases d <;> decide
  rw [text, String.toList_append, String.toList_ofList, List.mem_append, size, List.mem_append] at hc
  rcases hc with hc | hc | hc
  · split at hc
    · rw [List.mem_singleton.mp hc]
      decide
    · cases hc
  · exact hdigit c (List.mem_append_left _ hc)
  · split at hc
    · cases hc
    · rcases List.mem_cons.mp hc with rfl | hc
      · decide
      · exact hdigit c (List.mem_append_right _ hc)

theorem toList_text_ne_nil (n : Numeral) : n.text.toList ≠ [] := by
  rw [text, String.toList_append, String.toList_ofList, size]
  simp [n.whole_ne_nil]

end Decimal.Numeral

namespace Summary

open Decimal

theorem leadingPlace_real {u : ℝ} (hu : 0 < u) : leadingPlace u = Int.log 10 u := by
  have hfloor : Scalar.apply .floor (Scalar.apply .log10 u) = (((⌊Real.logb 10 u⌋ : ℤ) : ℚ) : ℝ) :=
    (Rat.cast_intCast _).symm
  rw [leadingPlace, hfloor, Scalar.toRat_ratCast, Rat.floor_intCast]
  exact Real.floor_logb_natCast hu.le

theorem tenTo_real (e : ℤ) : (tenTo e : ℝ) = 10 ^ e := by
  unfold tenTo
  split
  · rename_i hpos
    rw [Scalar.ofNat_real, tenPow, Nat.pow_eq, Nat.cast_pow, Nat.cast_ofNat, ← zpow_natCast,
      Int.toNat_of_nonneg hpos]
  · rw [Scalar.pow_real, Scalar.ofNat_real, Scalar.ofInt_real, Real.rpow_intCast, Nat.cast_ofNat]

theorem figurePlaces_real {u : ℝ} (hu : 0 < u) :
    figurePlaces u = .ok ((if u < 2 * 10 ^ Int.log 10 u then 1 else 0) - Int.log 10 u) := by
  have hten : (0 : ℝ) < 10 ^ Int.log 10 u := zpow_pos (by norm_num) _
  have hlow : (10 : ℝ) ^ Int.log 10 u ≤ u := by
    exact_mod_cast Int.zpow_log_le_self (by norm_num : 1 < 10) hu
  have hone : (1 : ℝ) ≤ u / 10 ^ Int.log 10 u := (one_le_div hten).mpr hlow
  have htwo : u / 10 ^ Int.log 10 u < 2 ↔ u < 2 * 10 ^ Int.log 10 u := div_lt_iff₀ hten
  simp only [figurePlaces, leadingPlace_real hu, tenTo_real, Checked.div_of_ne_zero hten.ne']
  show Except.ok ((if _ then (2 : ℤ) else 1) - 1 - Int.log 10 u) = _
  simp only [Scalar.le_real, Scalar.lt_real, Scalar.ofNat_real, Nat.cast_one, Nat.cast_ofNat, hone, htwo,
    decide_true, Bool.true_and, decide_eq_true_eq]
  split <;> rfl

/-- The places of an uncertainty have a step that it is not below, and half a step is within a quarter
of it. -/
theorem exists_figurePlaces {u : ℚ} (hu : 0 < u) :
    ∃ places, figurePlaces (u : ℝ) = .ok places ∧ step places ≤ u ∧ step places / 2 ≤ u / 4 := by
  have hreal : (0 : ℝ) < u := Rat.cast_pos.mpr hu
  refine ⟨_, figurePlaces_real hreal, ?_⟩
  generalize hplace : Int.log 10 (u : ℝ) = place
  have hcast : ((10 ^ place : ℚ) : ℝ) = 10 ^ place := by rw [Rat.cast_zpow, Rat.cast_ofNat]
  have hten : (0 : ℚ) < 10 ^ place := zpow_pos (by norm_num) _
  have hlow : (10 : ℚ) ^ place ≤ u := by
    rw [← Rat.cast_le (K := ℝ), hcast, ← hplace]
    exact_mod_cast Int.zpow_log_le_self (by norm_num : 1 < 10) hreal
  split
  · -- the first figure is a one: the step is a tenth of its place
    have hstep : step (1 - place) = 10 ^ place / 10 := by
      rw [step, neg_sub, zpow_sub₀ (by norm_num), zpow_one]
    rw [hstep]
    constructor <;> linarith
  · rename_i htwo
    have htwo : 2 * (10 : ℚ) ^ place ≤ u := by
      rw [← Rat.cast_le (K := ℝ), Rat.cast_mul, hcast, Rat.cast_ofNat]
      exact not_lt.mp htwo
    rw [step, zero_sub, neg_neg]
    constructor <;> linarith

theorem roundPlaces_ratCast (x : ℚ) (places : ℤ) :
    roundPlaces (x : ℝ) places = .ok ((rounded places x : ℚ) : ℝ) := by
  rw [roundPlaces, Scalar.exact_ratCast]
  by_cases hneg : x < 0
  · simp [rounded, hneg]
  · simp [rounded, hneg]

/-- A rounded number is written as it is. -/
theorem placesText_ratCast (x : ℚ) (places : ℤ) :
    ∃ n : Numeral, n.decimals.length = places.toNat ∧ n.literal.value = rounded places x ∧
      placesText (x : ℝ) places = .ok n.text := by
  obtain ⟨n, hlength, hvalue, htext⟩ := exists_fixedText_eq (isMultiple_rounded places x).toNat
  refine ⟨n, hlength, hvalue, ?_⟩
  rw [placesText, roundPlaces_ratCast, ← htext, ← Scalar.exact_ratCast]
  rfl

/-- What is reported of a value `v` with an uncertainty `u`: the numbers `v'` and `u'`, rounded to the
same places. -/
structure Reported (v u : ℚ) (places : ℤ) (v' u' : ℚ) : Prop where
  step_le : step places ≤ |u|
  value_multiple : IsMultiple places v'
  uncertainty_multiple : IsMultiple places u'
  value_near : |v' - v| ≤ step places / 2
  uncertainty_near : abs (u' - |u|) ≤ step places / 2
  uncertainty_pos : 0 < u'
  uncertainty_close : abs (u' - |u|) ≤ |u| / 4

theorem reported_rounded (v : ℚ) {u : ℚ} {places : ℤ} (hu : u ≠ 0) (hstep : step places ≤ |u|)
    (hhalf : step places / 2 ≤ |u| / 4) : Reported v u places (rounded places v) (rounded places |u|) := by
  have hpos : 0 < |u| := abs_pos.mpr hu
  have hnear := abs_rounded_sub_le places |u|
  exact {
    step_le := hstep
    value_multiple := isMultiple_rounded places v
    uncertainty_multiple := isMultiple_rounded places |u|
    value_near := abs_rounded_sub_le places v
    uncertainty_near := hnear
    uncertainty_pos := by linarith [neg_le_of_abs_le hnear]
    uncertainty_close := hnear.trans hhalf }

/-- The places of the first figure are kept, since the uncertainty does not become zero there. -/
theorem roundSize_ratCast {u : ℚ} {places : ℤ} (hu : u ≠ 0)
    (hplaces : figurePlaces ((|u| : ℚ) : ℝ) = .ok places) (hpos : 0 < rounded places |u|) :
    roundSize (u : ℝ) = .ok ⟨((rounded places |u| : ℚ) : ℝ), places⟩ := by
  have habs : Scalar.apply .abs (u : ℝ) = ((|u| : ℚ) : ℝ) := (Rat.cast_abs u).symm
  have hkept : ((rounded places |u| : ℚ) : ℝ) ≠ 0 := (Rat.cast_pos.mpr hpos).ne'
  rw [roundSize, habs, roundUncertainty, if_neg (by simpa using hu), bind_of_ok hplaces,
    bind_of_ok (roundPlaces_ratCast _ places), if_neg (by simpa using hkept)]
  rfl

theorem isIdle_ratCast {u : ℚ} (places : ℤ) (hu : 0 < u) : (⟨(u : ℝ), places⟩ : Rounding ℝ).isIdle = false := by
  simp [Rounding.isIdle, hu.ne']

/-- A value and its uncertainty stand at the start of the text, which has no blanks at its ends. -/
theorem trimText_reported (v u : Numeral) (unit : String) :
    Text.trimText (v.text ++ " ± " ++ u.text ++ " " ++ unit) =
      v.text ++ " ± " ++ u.text ++ String.ofList (Text.trimEnd (' ' :: unit.toList)) := by
  have hshape : (v.text ++ " ± " ++ u.text ++ " " ++ unit).toList =
      v.text.toList ++ (" ± ".toList ++ u.text.toList ++ (' ' :: unit.toList)) := by
    simp [String.toList_append]
  have hstart := Text.trimStart_append v.toList_text_ne_nil (fun _ => v.not_isBlank_of_mem_text)
    (" ± ".toList ++ u.text.toList ++ (' ' :: unit.toList))
  have hend := Text.trimEnd_append u.toList_text_ne_nil (fun _ => u.not_isBlank_of_mem_text)
    (v.text.toList ++ " ± ".toList) (' ' :: unit.toList)
  rw [Text.trimText, Text.trim, hshape, hstart, ← List.append_assoc, ← List.append_assoc, hend,
    String.ofList_append, String.ofList_append, String.ofList_append, String.ofList_toList,
    String.ofList_toList, String.ofList_toList]

/-- **The pair of numbers and the text report the same.** There is one number of places, that of the
first figure, or of the second if the first is a one, where the uncertainty does not become zero; both
numbers are rounded to it, and the text has the same numbers with as many decimals. -/
theorem withUncertainty_denotes_roundedPair (v u : ℚ) (hu : u ≠ 0) (unit : String) :
    ∃ (places : ℤ) (v' u' : ℚ) (vText uText : Numeral),
      roundedPair (v : ℝ) (u : ℝ) = .ok ((v' : ℝ), (u' : ℝ)) ∧ Reported v u places v' u' ∧
      figurePlaces (Scalar.apply .abs (u : ℝ)) = .ok places ∧
      roundPlaces (Scalar.apply .abs (u : ℝ)) places = .ok (u' : ℝ) ∧
      roundSize (u : ℝ) = .ok ⟨(u' : ℝ), places⟩ ∧
      withUncertainty (v : ℝ) (u : ℝ) unit =
        .ok (vText.text ++ " ± " ++ uText.text ++ String.ofList (Text.trimEnd (' ' :: unit.toList))) ∧
      vText.literal.value = v' ∧ (vText.decimals.length : ℤ) = max places 0 ∧
      uText.literal.value = u' ∧ (uText.decimals.length : ℤ) = max places 0 := by
  have habs : Scalar.apply .abs (u : ℝ) = ((|u| : ℚ) : ℝ) := (Rat.cast_abs u).symm
  obtain ⟨places, hplaces, hstep, hhalf⟩ := exists_figurePlaces (abs_pos.mpr hu)
  have hreported := reported_rounded v hu hstep hhalf
  -- the size is rounded once, and no further round changes it
  have hround := roundSize_ratCast hu hplaces hreported.uncertainty_pos
  have hidle := isIdle_ratCast places hreported.uncertainty_pos
  obtain ⟨vText, hvLength, hvValue, hvText⟩ := placesText_ratCast v places
  obtain ⟨uText, huLength, huValue, huText⟩ := placesText_ratCast (rounded places |u|) places
  -- the text has the rounded number itself, for it is a multiple of the step
  rw [rounded_of_isMultiple hreported.uncertainty_multiple] at huValue
  refine ⟨places, rounded places v, rounded places |u|, vText, uText, ?_, hreported,
    habs ▸ hplaces, habs ▸ roundPlaces_ratCast |u| places, hround, ?_, hvValue, by omega, huValue, by omega⟩
  · rw [roundedPair, bind_of_ok hround, if_neg (by simp [hidle]), bind_of_ok (roundPlaces_ratCast v places)]
    rfl
  · rw [withUncertainty, bind_of_ok hround, if_neg (by simp [hidle]), bind_of_ok hvText, bind_of_ok huText,
      ← trimText_reported]
    rfl

/-- The first figure may be carried over: with an uncertainty of 0.096, reported as 0.10, the number
9.876 is reported as 9.88. -/
theorem roundedPair_carried : (-12 / 125 : ℚ) ≠ 0 ∧
    roundedPair ((2469 / 250 : ℚ) : ℝ) ((-12 / 125 : ℚ) : ℝ) = .ok (((247 / 25 : ℚ) : ℝ), ((1 / 10 : ℚ) : ℝ)) := by
  have hu : (-12 / 125 : ℚ) ≠ 0 := by norm_num
  obtain ⟨places, v', u', -, -, hpair, hreported, hplaces, -⟩ :=
    withUncertainty_denotes_roundedPair (2469 / 250) (-12 / 125) hu ""
  -- the first figure is the nine in the second place, so two places are kept
  have habs : Scalar.apply .abs ((-12 / 125 : ℚ) : ℝ) = (12 / 125 : ℝ) := by
    show |((-12 / 125 : ℚ) : ℝ)| = _
    norm_num [abs_of_neg]
  have hlog : Int.log 10 (12 / 125 : ℝ) = -2 := by
    have hhigh := (Int.lt_zpow_iff_log_lt (by norm_num : 1 < 10) (by norm_num : (0 : ℝ) < 12 / 125)).mp
      (by norm_num : (12 / 125 : ℝ) < (10 : ℕ) ^ (-1 : ℤ))
    have hlow := (Int.zpow_le_iff_le_log (by norm_num : 1 < 10) (by norm_num : (0 : ℝ) < 12 / 125)).mp
      (by norm_num : ((10 : ℕ) : ℝ) ^ (-2 : ℤ) ≤ 12 / 125)
    omega
  have htwo : places = 2 := by
    rw [habs, figurePlaces_real (by norm_num), hlog, if_neg (by norm_num)] at hplaces
    exact (Except.ok.inj hplaces).symm
  -- the nearest multiples of a hundredth are 988 and 10 of them
  subst htwo
  have hstep : step 2 = 1 / 100 := by norm_num [step]
  have hvalue : v' = 247 / 25 := by
    have hnear := abs_le.mp (hstep ▸ hreported.value_near)
    refine hreported.value_multiple.eq_of_abs_sub_lt ⟨988, by norm_num [step]⟩ ?_
    rw [hstep, abs_lt]
    constructor <;> linarith [hnear.1, hnear.2]
  have huncertainty : u' = 1 / 10 := by
    have hnear := abs_le.mp (hstep ▸ hreported.uncertainty_near)
    rw [abs_of_neg (by norm_num)] at hnear
    refine hreported.uncertainty_multiple.eq_of_abs_sub_lt ⟨10, by norm_num [step]⟩ ?_
    rw [hstep, abs_lt]
    constructor <;> linarith [hnear.1, hnear.2]
  exact ⟨hu, hvalue ▸ huncertainty ▸ hpair⟩

end Summary

end Ballpark
