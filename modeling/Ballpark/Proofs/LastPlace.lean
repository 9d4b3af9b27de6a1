import Ballpark.Decimal.LastPlace
import Ballpark.Proofs.LiteralParts
import Ballpark.Proofs.Numeral

/-!
# The last significant place

Each digit of a literal stands for a power of ten, its place; the value is the sum of the digits, each
times the power of ten of its place (`Decimal.Parts.value_eq_sum`). Behind a point every digit counts, so the
last significant place is that of the last digit. Without a point the zeros at the end do not count: the
value is a number of last places that ten does not divide (`Decimal.Parts.isLastPlace`). That takes digits of
ASCII, since only the zeros of ASCII are dropped.
-/

namespace Ballpark.Decimal

open UnitToken

/-! ## Digits -/

/-- The number that digits write, as the sum of the digits with their powers of ten. -/
theorem ofDigits_mul_zpow (digits : List Nat) (top : ℤ) (start : Nat) :
    ((digits.zipIdx start).map fun p => (p.1 : ℚ) * 10 ^ (top - (p.2 + 1))).sum =
      ofDigits digits * 10 ^ (top - (start + digits.length)) := by
  induction digits generalizing start with
  | nil => simp [ofDigits]
  | cons d digits ih =>
    have hshift : top - ((start : ℤ) + 1) = digits.length + (top - (start + (d :: digits).length)) := by
      rw [List.length_cons]
      push_cast
      ring
    have hcons := ofDigits_append [d] digits
    rw [List.zipIdx_cons, List.map_cons, List.sum_cons, ih, ← List.singleton_append, hcons,
      List.singleton_append, hshift, zpow_add₀ (by norm_num), zpow_natCast]
    simp only [ofDigits, List.foldl_cons, List.foldl_nil, List.length_cons]
    push_cast
    ring_nf

/-- A digit of ASCII that is not zero. -/
theorem exists_digitValue {c : Char} (hdigit : Text.isDigit c = true) (hascii : c.toNat < 0x80)
    (hzero : c ≠ '0') : ∃ d, Text.digitValue? c = some d ∧ 0 < d ∧ d < 10 := by
  have hcode : 0x30 ≤ c.toNat ∧ c.toNat ≤ 0x39 := by
    rcases code_of_isDigit hdigit with h | h
    · exact h
    · omega
  have hplain : c.isDigit = true := by
    simp only [Char.isDigit, Bool.and_eq_true, decide_eq_true_eq, ge_iff_le, UInt32.le_iff_toNat_le]
    exact hcode
  have hne : c.toNat ≠ 0x30 := fun h => hzero (Char.toNat_inj.mp h)
  refine ⟨c.toNat - 0x30, by rw [Text.digitValue?, if_pos hplain]; rfl, ?_⟩
  omega

/-- A text ends with its zeros, and what stands in front of them does not end with another. -/
theorem exists_endZeros (digits : List Char) : ∃ front,
    digits = front ++ List.replicate (endZeros digits) '0' ∧ ∀ c ∈ front.getLast?, c ≠ '0' := by
  induction digits using List.reverseRecOn with
  | nil => exact ⟨[], rfl, fun c hc => by cases hc⟩
  | append_singleton digits c ih =>
    obtain ⟨front, hfront, hlast⟩ := ih
    rw [endZeros, List.reverse_append, List.reverse_singleton, List.singleton_append, List.takeWhile_cons]
    split
    · rename_i hzero
      obtain rfl : c = '0' := beq_iff_eq.mp hzero
      refine ⟨front, ?_, hlast⟩
      conv_lhs => rw [hfront]
      rw [List.length_cons, List.replicate_succ', List.append_assoc, endZeros]
    · rename_i hnonzero
      refine ⟨digits ++ [c], (List.append_nil _).symm, fun d hd => ?_⟩
      rw [List.getLast?_concat, Option.mem_some_iff] at hd
      exact hd ▸ fun heq => hnonzero (beq_iff_eq.mpr heq)

/-- The number of digits of ASCII that are not all zeros: ten divides it as often as zeros end it. -/
theorem exists_ofDigits_eq {digits : List Char} (hdigits : AllDigits digits)
    (hascii : ∀ c ∈ digits, c.toNat < 0x80) (hsome : ∃ c ∈ digits, c ≠ '0') :
    ∃ n, ¬10 ∣ n ∧ ofDigits (leadingDigits digits) = n * 10 ^ endZeros digits := by
  obtain ⟨front, hfront, hlast⟩ := exists_endZeros digits
  rcases List.eq_nil_or_concat' front with rfl | ⟨init, c, rfl⟩
  · obtain ⟨c, hc, hzero⟩ := hsome
    rw [hfront] at hc
    exact absurd (List.eq_of_mem_replicate hc) hzero
  have hmem : ∀ d ∈ init ++ [c], d ∈ digits := fun d hd => hfront ▸ List.mem_append_left _ hd
  have hkept : AllDigits (init ++ [c]) := fun d hd => hdigits d (hmem d hd)
  have hzeros := allDigits_zeros (endZeros digits)
  have hc := hmem c (List.mem_append_right _ List.mem_cons_self)
  obtain ⟨d, hd, hpos, hlt⟩ := exists_digitValue (hdigits c hc) (hascii c hc)
    (hlast c (by rw [List.getLast?_concat]; rfl))
  refine ⟨ofDigits (leadingDigits (init ++ [c])), by rw [ofDigits_concat hkept hd]; omega, ?_⟩
  conv_lhs => rw [hfront, leadingDigits_append hkept hzeros, ofDigits_append, ofDigits_zeros,
    length_leadingDigits hzeros, List.length_replicate, Nat.add_zero]

/-! ## Places -/

/-- The digits of a literal, each with its place: the power of ten that it stands for. -/
def digitPlaces (literal : String) : List (Nat × ℤ) :=
  let text := literal.toList
  let mantissa := text.takeWhile (!isExponentMark ·)
  let shift := (signedWhole? ((text.dropWhile (!isExponentMark ·)).drop 1)).getD 0
  let whole := mantissa.takeWhile (· != '.')
  let places := (mantissa.dropWhile (· != '.')).drop 1
  (leadingDigits (whole ++ places)).zipIdx.map fun p => (p.1, shift + whole.length - (p.2 + 1))

/-- The place of the last significant digit. -/
structure IsLastPlace (literal : String) (place : ℤ) : Prop where
  /-- the value is a whole number of last places -/
  whole : ∃ n : Nat, (ofText literal).value = n * 10 ^ place
  /-- behind a point every digit counts -/
  pointed : '.' ∈ literal.toList → (digitPlaces literal).getLast?.map Prod.snd = some place
  /-- a zero counts units of its power of ten -/
  zero : (ofText literal).value = 0 → (digitPlaces literal).getLast?.map Prod.snd = some place
  /-- without a point the zeros at the end do not count -/
  unpointed : '.' ∉ literal.toList → (ofText literal).value ≠ 0 →
    ∃ n : Nat, ¬10 ∣ n ∧ (ofText literal).value = n * 10 ^ place

namespace Parts

variable {literal : String} {whole places : List Char} {shift : ℤ}

theorem value_eq (h : Parts literal.toList whole places shift) :
    (ofText literal).value = ofDigits (leadingDigits (whole ++ places)) * 10 ^ (shift - places.length) := by
  have hread : ofText literal = ⟨false, ofDigits (leadingDigits (whole ++ places)), shift - places.length⟩ := by
    rw [ofText, h.ofLiteral_eq]
    rfl
  rw [hread, value, if_neg Bool.false_ne_true, magnitude_eq, step, neg_neg]

theorem digitPlaces_eq (h : Parts literal.toList whole places shift) :
    digitPlaces literal = (leadingDigits (whole ++ places)).zipIdx.map
      fun p => (p.1, shift + whole.length - (p.2 + 1)) := by
  obtain ⟨hwhole, hplaces⟩ := h.takeWhile_point
  simp only [digitPlaces, h.signedWhole_getD, hwhole, hplaces]

/-- The value is the sum of the digits, each times the power of ten of its place. -/
theorem value_eq_sum (h : Parts literal.toList whole places shift) :
    (ofText literal).value = ((digitPlaces literal).map fun p => (p.1 : ℚ) * 10 ^ p.2).sum := by
  have hlength : shift + whole.length - (((0 : Nat) : ℤ) + (leadingDigits (whole ++ places)).length) =
      shift - places.length := by
    rw [length_leadingDigits h.digits, List.length_append]
    push_cast
    ring
  rw [h.value_eq, h.digitPlaces_eq, List.map_map, ← hlength]
  exact (ofDigits_mul_zpow _ _ 0).symm

/-- The last digit is as many places behind the point as there are decimals. -/
theorem getLast_digitPlaces (h : Parts literal.toList whole places shift) :
    (digitPlaces literal).getLast?.map Prod.snd = some (shift - places.length) := by
  have hlength := length_leadingDigits h.digits
  have hpos := List.length_pos_iff.mpr h.ne_nil
  rw [h.digitPlaces_eq, List.getLast?_eq_getElem?, List.getElem?_map, List.getElem?_zipIdx,
    List.length_map, List.length_zipIdx, hlength,
    List.getElem?_eq_getElem (by rw [hlength]; exact Nat.sub_one_lt hpos.ne')]
  simp only [List.length_append, Option.map_some, Option.some.injEq] at hpos ⊢
  omega

theorem lastPlace_pointed (h : Parts literal.toList whole places shift) (hpoint : '.' ∈ literal.toList) :
    lastPlace literal = shift - places.length := by
  simp only [lastPlace, mantissaPlace, h.contains_point, h.takeWhile_point.2, h.signedWhole_getD,
    decide_eq_true hpoint, if_true]
  ring

theorem lastPlace_unpointed (h : Parts literal.toList whole places shift) (hnone : '.' ∉ literal.toList) :
    lastPlace literal = (if whole.all (· == '0') then 0 else endZeros whole : ℤ) + shift := by
  have hcontains := h.contains_point
  rw [h.mantissa_unpointed hnone, decide_eq_false hnone] at hcontains
  simp only [lastPlace, mantissaPlace, h.signedWhole_getD, h.mantissa_unpointed hnone, hcontains,
    Bool.false_eq_true, if_false]

/-- Without a point the digits are shifted by the power of ten alone. -/
theorem value_unpointed (h : Parts literal.toList whole places shift) (hnone : '.' ∉ literal.toList) :
    AllDigits whole ∧ (ofText literal).value = ofDigits (leadingDigits whole) * 10 ^ shift := by
  have hvalue := h.value_eq
  have hdigits := h.digits
  rw [h.unpointed hnone, List.append_nil] at hdigits hvalue
  rw [List.length_nil, Nat.cast_zero, sub_zero] at hvalue
  exact ⟨hdigits, hvalue⟩

/-- **The last place is that of the last significant digit.** -/
theorem isLastPlace (h : Parts literal.toList whole places shift)
    (hascii : ∀ c ∈ literal.toList, c.toNat < 0x80) : IsLastPlace literal (lastPlace literal) := by
  by_cases hpoint : '.' ∈ literal.toList
  · rw [h.lastPlace_pointed hpoint]
    exact ⟨⟨_, h.value_eq⟩, fun _ => h.getLast_digitPlaces, fun _ => h.getLast_digitPlaces,
      fun hnone => absurd hpoint hnone⟩
  obtain ⟨hdigits, hvalue⟩ := h.value_unpointed hpoint
  rw [h.lastPlace_unpointed hpoint]
  split
  · -- zero has no last significant digit: its last place is that of the one digit that it needs
    rename_i hall
    have hzeros : whole = List.replicate whole.length '0' :=
      List.eq_replicate_of_mem fun c hc => beq_iff_eq.mp (List.all_eq_true.mp hall c hc)
    rw [hzeros, ofDigits_zeros, Nat.cast_zero, zero_mul] at hvalue
    refine ⟨⟨0, by rw [hvalue, Nat.cast_zero, zero_mul]⟩, fun hmem => absurd hmem hpoint, fun _ => ?_,
      fun _ hne => absurd hvalue hne⟩
    rw [h.getLast_digitPlaces, h.unpointed hpoint, List.length_nil, Nat.cast_zero, sub_zero, zero_add]
  · -- zeros at the end of a whole number are no significant digits
    rename_i hsome
    have hwhole : ∀ c ∈ whole, c.toNat < 0x80 := fun c hc =>
      hascii c ((List.takeWhile_sublist _).subset (h.mantissa_unpointed hpoint ▸ hc))
    obtain ⟨n, hten, hn⟩ := exists_ofDigits_eq hdigits hwhole (by simpa using hsome)
    have hplaces : (ofText literal).value = n * 10 ^ ((endZeros whole : ℤ) + shift) := by
      rw [hvalue, hn, zpow_add₀ (by norm_num), zpow_natCast]
      push_cast
      ring
    have hne : (ofText literal).value ≠ 0 := by
      rw [hplaces]
      refine mul_ne_zero ?_ (zpow_ne_zero _ (by norm_num))
      exact_mod_cast fun hzero : n = 0 => hten (hzero ▸ dvd_zero 10)
    exact ⟨⟨n, hplaces⟩, fun hmem => absurd hmem hpoint, fun hzero => absurd hzero hne,
      fun _ _ => ⟨n, hten, hplaces⟩⟩

end Parts

example : digitPlaces "1.50e3" = [(1, 3), (5, 2), (0, 1)] ∧ lastPlace "1.50e3" = 1 := by decide +kernel

end Ballpark.Decimal
