import Ballpark.Proofs.LiteralParts
import Mathlib.Data.List.Basic
import Mathlib.Data.Nat.Digits.Defs
import Mathlib.Tactic.IntervalCases

/-!
# Writing decimal literals

Each literal without a sign has a text in the ten common digits: its digits, and its power of ten where
that is not one. Reading the text gives the literal again, digit for digit and not only up to its value
(`Decimal.read_written`).
-/

namespace Ballpark

namespace Decimal

/-- A natural number in decimal digits. -/
def digitText (n : Nat) : List Char :=
  if n = 0 then ['0'] else (Nat.digits 10 n).reverse.map Nat.digitChar

/-- A whole number in decimal digits, behind a sign if it is below zero. -/
def wholeText (k : Int) : List Char :=
  if k < 0 then '-' :: digitText k.natAbs else digitText k.natAbs

/-- The text of a literal without its sign. -/
def written (d : Decimal) : String :=
  String.ofList (digitText d.digits ++ if d.exponent = 0 then [] else 'e' :: wholeText d.exponent)

theorem digitValue_digitChar {d : Nat} (h : d < 10) : Text.digitValue? d.digitChar = some d := by
  interval_cases d <;> decide

theorem digitChar_unsigned {d : Nat} (h : d < 10) : d.digitChar ≠ '-' ∧ d.digitChar ≠ '+' := by
  interval_cases d <;> decide

theorem mem_digitText {n : Nat} {c : Char} (h : c ∈ digitText n) : ∃ d < 10, c = Nat.digitChar d := by
  unfold digitText at h
  split at h
  · exact ⟨0, by decide, List.mem_singleton.mp h⟩
  · obtain ⟨d, hd, rfl⟩ := List.mem_map.mp h
    exact ⟨d, Nat.digits_lt_base (by decide) (List.mem_reverse.mp hd), rfl⟩

theorem isDigit_of_mem_digitText {n : Nat} {c : Char} (h : c ∈ digitText n) : Text.isDigit c = true := by
  obtain ⟨d, hd, rfl⟩ := mem_digitText h
  rw [Text.isDigit, digitValue_digitChar hd]
  rfl

theorem all_isDigit_digitText (n : Nat) : (digitText n).all Text.isDigit = true :=
  List.all_eq_true.mpr fun _ => isDigit_of_mem_digitText

theorem digitText_isEmpty (n : Nat) : (digitText n).isEmpty = false := by
  unfold digitText
  split
  · rfl
  · rename_i h
    simpa [Nat.digits_eq_nil_iff_eq_zero] using h

theorem ofDigits_reverse_digits (n : Nat) : ofDigits (Nat.digits 10 n).reverse = n := by
  have h := Nat.ofDigits_digits 10 n
  rw [Nat.ofDigits_eq_foldr] at h
  rw [ofDigits, List.foldl_reverse]
  simpa [Nat.add_comm] using h

theorem ofDigits_digitText (n : Nat) : ofDigits (leadingDigits (digitText n)) = n := by
  rw [leadingDigits, List.takeWhile_eq_self_iff.mpr fun _ => isDigit_of_mem_digitText]
  unfold digitText
  split
  · rename_i h
    rw [h]
    decide
  · have hvalues : ((Nat.digits 10 n).reverse.map Nat.digitChar).filterMap Text.digitValue? =
        (Nat.digits 10 n).reverse.filterMap some := by
      rw [List.filterMap_map]
      exact List.filterMap_congr fun d hd =>
        digitValue_digitChar (Nat.digits_lt_base (by decide) (List.mem_reverse.mp hd))
    rw [hvalues, List.filterMap_some, ofDigits_reverse_digits]

theorem signedWhole_wholeText (k : Int) : signedWhole? (wholeText k) = some k := by
  have hall := all_isDigit_digitText k.natAbs
  have hempty := digitText_isEmpty k.natAbs
  unfold wholeText
  split
  · rename_i hneg
    simp only [signedWhole?, hall, hempty, ofDigits_digitText, Bool.not_true, Bool.or_false,
      Bool.false_eq_true, if_false, if_true, Option.some.injEq]
    omega
  · rename_i hpos
    have hsign : ∀ c rest, digitText k.natAbs = c :: rest → c ≠ '-' ∧ c ≠ '+' := by
      intro c rest hshape
      obtain ⟨d, hd, rfl⟩ := mem_digitText (hshape ▸ List.mem_cons_self)
      exact digitChar_unsigned hd
    rw [signedWhole?, hall, hempty, ofDigits_digitText]
    · simp only [Bool.not_true, Bool.or_false, Bool.false_eq_true, if_false, Option.some.injEq]
      omega
    · exact fun rest h => (hsign _ rest h).1 rfl
    · exact fun rest h => (hsign _ rest h).2 rfl

/-- The library writes numbers in the same digits. -/
theorem toString_eq_digitText (n : Nat) : toString n = String.ofList (digitText n) := by
  rw [Nat.toString_eq_ofList_toDigits]
  congr 1
  induction n using Nat.strongRecOn with
  | ind n ih =>
    rcases Nat.eq_zero_or_pos n with rfl | hpos
    · rfl
    have hdigits : digitText n = (Nat.digits 10 n).reverse.map Nat.digitChar := if_neg hpos.ne'
    rcases Nat.lt_or_ge n 10 with hsmall | hlarge
    · rw [Nat.toDigits_of_lt_base hsmall, hdigits, Nat.digits_of_lt 10 n hpos.ne' hsmall]
      rfl
    · have hquotient : 0 < n / 10 := Nat.div_pos hlarge (by decide)
      rw [Nat.toDigits_of_base_le (by decide) hlarge, ih (n / 10) (Nat.div_lt_self hpos (by decide)),
        digitText, if_neg hquotient.ne', hdigits, Nat.digits_def' (by decide) hpos, List.reverse_cons,
        List.map_append]
      rfl

theorem digitText_ne_nil (n : Nat) : digitText n ≠ [] := by
  have hempty := digitText_isEmpty n
  simpa using hempty

theorem parts_digitText (n : Nat) : Parts (digitText n) (digitText n) [] 0 :=
  .of_whole (fun _ => isDigit_of_mem_digitText) (digitText_ne_nil n)

/-- Digits without a power of ten. -/
theorem ofLiteral_digitText (n : Nat) : ofLiteral? (digitText n) = some (ofNat n) := by
  rw [(parts_digitText n).ofLiteral_eq, List.append_nil, ofDigits_digitText]
  rfl

theorem ofText_toString (n : Nat) : ofText (toString n) = ofNat n := by
  rw [ofText, toString_eq_digitText, String.toList_ofList, ofLiteral_digitText]
  rfl

/-- Digits with a power of ten. -/
theorem ofLiteral_raised (n : Nat) (k : Int) :
    ofLiteral? (digitText n ++ 'e' :: wholeText k) = some ⟨false, n, k⟩ := by
  have hdigits : ∀ n, UnitToken.AllDigits (digitText n) := fun n _ => isDigit_of_mem_digitText
  have hpoint : '.' ∉ wholeText k := by
    unfold wholeText
    split
    · simpa using point_notMem (hdigits _)
    · exact point_notMem (hdigits _)
  have hparts : Parts (digitText n ++ 'e' :: wholeText k) (digitText n) [] k :=
    (parts_digitText n).scaled rfl (markFree_digits (hdigits n)) (signedWhole_wholeText k) hpoint
  rw [hparts.ofLiteral_eq, List.append_nil, ofDigits_digitText, List.length_nil, Nat.cast_zero, sub_zero]

/-- **A written literal is read back.** -/
theorem read_written {d : Decimal} (h : d.negative = false) : ofText d.written = d := by
  obtain ⟨negative, digits, exponent⟩ := d
  obtain rfl := h
  rw [ofText, written, String.toList_ofList]
  rcases eq_or_ne exponent 0 with rfl | hexponent
  · rw [if_pos rfl, List.append_nil, ofLiteral_digitText]
    rfl
  · rw [if_neg hexponent, ofLiteral_raised]
    rfl

end Decimal

end Ballpark
