import Ballpark.Decimal.Notation
import Ballpark.Proofs.DecimalRounding
import Ballpark.Proofs.DecimalText

/-!
# Numbers with a fixed number of decimals

A `Numeral` is a decimal number as it is written: a sign, digits in front of the point and decimals
behind it. It denotes the literal of its digits, and its digits are read as that literal
(`Numeral.ofLiteral_size`). A whole number of steps is printed as a numeral that denotes it
(`exists_fixedText_eq`).
-/

namespace Ballpark

namespace Decimal

/-- A decimal number as it is written. -/
structure Numeral where
  negative : Bool
  /-- the digits in front of the point -/
  whole : List Char
  /-- the digits behind the point -/
  decimals : List Char
  whole_ne_nil : whole ≠ []
  exists_digit : ∀ c ∈ whole ++ decimals, ∃ d < 10, c = Nat.digitChar d

namespace Numeral

/-- The characters behind the sign; there is a point only in front of decimals. -/
def size (n : Numeral) : List Char :=
  n.whole ++ if n.decimals = [] then [] else '.' :: n.decimals

/-- The text, with its sign. -/
def text (n : Numeral) : String :=
  (if n.negative then "-" else "") ++ String.ofList n.size

/-- The literal of the digits. -/
def literal (n : Numeral) : Decimal :=
  ⟨n.negative, ofDigits (leadingDigits (n.whole ++ n.decimals)), -n.decimals.length⟩

variable (n : Numeral)

theorem isDigit_of_mem {c : Char} (hc : c ∈ n.whole ++ n.decimals) : Text.isDigit c = true := by
  obtain ⟨d, hd, rfl⟩ := n.exists_digit c hc
  rw [Text.isDigit, digitValue_digitChar hd]
  rfl

/-- The point is where the digits in front of it end. -/
theorem parts : Parts n.size n.whole n.decimals 0 := by
  have hdigits : UnitToken.AllDigits (n.whole ++ n.decimals) := fun _ => n.isDigit_of_mem
  have hwhole : UnitToken.AllDigits n.whole := fun c hc => hdigits c (List.mem_append_left _ hc)
  rw [size]
  split
  · rename_i hnone
    rw [hnone, List.append_nil]
    exact .of_whole hwhole n.whole_ne_nil
  · exact .of_point hwhole (fun c hc => hdigits c (List.mem_append_right _ hc))
      (by simp [n.whole_ne_nil])

/-- **The digits of a numeral are read as its literal.** -/
theorem ofLiteral_size : ofLiteral? n.size = some { n.literal with negative := false } := by
  rw [n.parts.ofLiteral_eq, zero_sub]
  rfl

end Numeral

theorem padded_eq (width n : Nat) :
    padded width n = List.replicate (width - (digitText n).length) '0' ++ digitText n := by
  have hdigits : Nat.toDigits 10 n = digitText n := by
    rw [← String.ofList_inj, ← Nat.toString_eq_ofList_toDigits]
    exact toString_eq_digitText n
  rw [padded, hdigits]

theorem exists_digit_of_mem_padded {width n : Nat} {c : Char} (hc : c ∈ padded width n) :
    ∃ d < 10, c = Nat.digitChar d := by
  rw [padded_eq, List.mem_append] at hc
  rcases hc with hc | hc
  · exact ⟨0, by decide, List.eq_of_mem_replicate hc⟩
  · exact mem_digitText hc

theorem le_length_padded (width n : Nat) : width ≤ (padded width n).length := by
  rw [padded_eq, List.length_append, List.length_replicate]
  omega

/-- Zeros in front leave the number as it is. -/
theorem ofDigits_padded (width n : Nat) : ofDigits (leadingDigits (padded width n)) = n := by
  rw [padded_eq, leadingDigits_append (allDigits_zeros _) fun _ => isDigit_of_mem_digitText, ofDigits_append,
    ofDigits_zeros, ofDigits_digitText, zero_mul, zero_add]

/-- The numeral of so many steps. -/
def numeral (negative : Bool) (places count : Nat) : Numeral where
  negative := negative
  whole := (padded (places + 1) count).take ((padded (places + 1) count).length - places)
  decimals := (padded (places + 1) count).drop ((padded (places + 1) count).length - places)
  whole_ne_nil := by
    have := le_length_padded (places + 1) count
    rw [← List.length_pos_iff, List.length_take]
    omega
  exists_digit c hc := exists_digit_of_mem_padded (List.take_append_drop _ _ ▸ hc)

section

variable (negative : Bool) (places count : Nat)

theorem length_decimals_numeral : (numeral negative places count).decimals.length = places := by
  have := le_length_padded (places + 1) count
  rw [numeral, List.length_drop]
  omega

theorem literal_numeral : (numeral negative places count).literal = ⟨negative, count, -places⟩ := by
  rw [Numeral.literal, length_decimals_numeral]
  rw [numeral, List.take_append_drop, ofDigits_padded]

theorem size_numeral : (numeral negative places count).size = pointed places (padded (places + 1) count) := by
  have hlength := length_decimals_numeral negative places count
  unfold Numeral.size pointed
  by_cases hplaces : places = 0
  · rw [if_pos (List.length_eq_zero_iff.mp (hlength.trans hplaces)), hplaces]
    simp [numeral]
  · rw [if_neg fun hnone => hplaces (hlength ▸ List.length_eq_zero_iff.mpr hnone), if_neg (by simpa using hplaces)]
    rfl

end

theorem magnitude_eq (d : Decimal) : d.magnitude = d.digits * step (-d.exponent) := by
  unfold magnitude step
  rw [neg_neg]
  split
  · rename_i hneg
    have hexponent : d.exponent = -(d.exponent.natAbs : ℤ) := by omega
    conv_rhs => rw [hexponent, zpow_neg, zpow_natCast]
    rw [Rat.mkRat_eq_div, Int.cast_natCast, cast_tenPow, div_eq_mul_inv]
  · rename_i hpos
    have hexponent : d.exponent = (d.exponent.natAbs : ℤ) := by omega
    conv_rhs => rw [hexponent, zpow_natCast]
    rw [Nat.cast_mul, cast_tenPow]

/-- **A whole number of steps is printed as a numeral that denotes it**, with a decimal for each
place. -/
theorem exists_fixedText_eq {places : Nat} {x : ℚ} (h : IsMultiple places x) :
    ∃ n : Numeral, n.decimals.length = places ∧ n.literal.value = x ∧
      fixedText places (.finite (decide (x < 0)) |x|) = n.text := by
  obtain ⟨count, hcount⟩ := h.exists_abs
  have habs : roundAt |x| places = count := roundAt_of_abs_eq ((abs_abs x).trans hcount)
  refine ⟨numeral (decide (x < 0)) places count, length_decimals_numeral .., ?_, ?_⟩
  · rw [literal_numeral, value, magnitude_eq]
    dsimp only
    rw [neg_neg, ← hcount]
    by_cases hneg : x < 0
    · rw [if_pos (decide_eq_true hneg), abs_of_neg hneg, neg_neg]
    · rw [if_neg (by simpa using hneg), abs_of_nonneg (not_lt.mp hneg)]
  · rw [fixedText, Exact.text, fixed, habs, Numeral.text, size_numeral]
    rfl

end Decimal

end Ballpark
