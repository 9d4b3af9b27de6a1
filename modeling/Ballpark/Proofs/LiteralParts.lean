import Mathlib.Data.List.Induction
import Mathlib.Tactic.Ring
import Ballpark.Proofs.UnitSpelling

/-!
# Literals in parts

A literal is digits with at most one point, and a power of ten behind its mark. It is read as the number
that its digits write, shifted by the power of ten and by the digits behind the point
(`Decimal.Parts.ofLiteral_eq`), and whatever a tokenizer takes for a number can be taken apart in this way
(`Decimal.exists_parts`).
-/

namespace Ballpark.Decimal

open UnitToken

/-! ## Digits -/

/-- A text of digits leads with all of them. -/
theorem leadingDigits_of_allDigits {text : List Char} (h : AllDigits text) :
    leadingDigits text = text.filterMap Text.digitValue? := by
  rw [leadingDigits, List.takeWhile_eq_self_iff.mpr h]

theorem leadingDigits_append {front back : List Char} (hfront : AllDigits front) (hback : AllDigits back) :
    leadingDigits (front ++ back) = leadingDigits front ++ leadingDigits back := by
  have hall : AllDigits (front ++ back) := fun c hc => (List.mem_append.mp hc).elim (hfront c) (hback c)
  rw [leadingDigits_of_allDigits hall, leadingDigits_of_allDigits hfront, leadingDigits_of_allDigits hback,
    List.filterMap_append]

theorem length_leadingDigits {text : List Char} (h : AllDigits text) :
    (leadingDigits text).length = text.length := by
  rw [leadingDigits_of_allDigits h]
  induction text with
  | nil => rfl
  | cons c text ih =>
    obtain ⟨d, hd⟩ := Option.isSome_iff_exists.mp (h c List.mem_cons_self)
    rw [List.filterMap_cons_some hd, List.length_cons, List.length_cons,
      ih fun c hc => h c (List.mem_cons_of_mem _ hc)]

theorem ofDigits_append (front back : List Nat) :
    ofDigits (front ++ back) = ofDigits front * 10 ^ back.length + ofDigits back := by
  have hrest : ∀ n, back.foldl (fun n d => 10 * n + d) n = n * 10 ^ back.length + ofDigits back := by
    intro n
    rw [ofDigits]
    induction back using List.reverseRecOn with
    | nil => simp
    | append_singleton back d ih =>
      rw [List.foldl_append, List.foldl_append, ih, List.length_append]
      simp only [List.foldl_cons, List.foldl_nil, List.length_singleton, pow_succ]
      ring
  rw [ofDigits, List.foldl_append]
  exact hrest _

/-- The last digit counts units. -/
theorem ofDigits_concat {init : List Char} {c : Char} {d : Nat} (h : AllDigits (init ++ [c]))
    (hd : Text.digitValue? c = some d) :
    ofDigits (leadingDigits (init ++ [c])) = ofDigits (leadingDigits init) * 10 + d := by
  have hinit : AllDigits init := fun e he => h e (List.mem_append_left _ he)
  have hlast : AllDigits [c] := fun e he => h e (List.mem_append_right _ he)
  rw [leadingDigits_append hinit hlast, ofDigits_append, leadingDigits_of_allDigits hlast,
    List.filterMap_cons_some hd]
  simp [ofDigits]

theorem allDigits_zeros (n : Nat) : AllDigits (List.replicate n '0') := fun c hc => by
  rw [List.eq_of_mem_replicate hc]
  decide

theorem ofDigits_zeros (n : Nat) : ofDigits (leadingDigits (List.replicate n '0')) = 0 := by
  rw [leadingDigits_of_allDigits (allDigits_zeros n),
    List.filterMap_replicate_of_some (by decide : _ = some 0)]
  induction n with
  | zero => rfl
  | succ n ih => exact ih

theorem ne_point_of_isDigit {c : Char} (h : Text.isDigit c = true) : c ≠ '.' := by
  rintro rfl
  exact absurd h (by decide)

theorem isExponentMark_of_isDigit {c : Char} (h : Text.isDigit c = true) : isExponentMark c = false := by
  rw [isExponentMark, Bool.or_eq_false_iff, beq_eq_false_iff_ne, beq_eq_false_iff_ne]
  constructor <;> rintro rfl <;> exact absurd h (by decide)

theorem markFree_digits {digits : List Char} (h : AllDigits digits) :
    ∀ c ∈ digits, isExponentMark c = false :=
  fun c hc => isExponentMark_of_isDigit (h c hc)

theorem markFree_point {whole places : List Char} (hwhole : AllDigits whole) (hplaces : AllDigits places) :
    ∀ c ∈ whole ++ '.' :: places, isExponentMark c = false := by
  intro c hc
  rcases List.mem_append.mp hc with hc | hc
  · exact markFree_digits hwhole c hc
  · rcases List.mem_cons.mp hc with rfl | hc
    · rfl
    · exact markFree_digits hplaces c hc

theorem point_notMem {digits : List Char} (h : AllDigits digits) : '.' ∉ digits :=
  fun hmem => ne_point_of_isDigit (h '.' hmem) rfl

/-! ## Parts -/

/-- The characters of a literal, taken apart: digits in front of the point and behind it, and the power of
ten that they are shifted by. -/
structure Parts (literal whole places : List Char) (shift : ℤ) : Prop where
  mantissa : literal.takeWhile (!isExponentMark ·) = whole ++ if '.' ∈ literal then '.' :: places else []
  unpointed : '.' ∉ literal → places = []
  shift_eq : (if literal.any isExponentMark then
    signedWhole? ((literal.dropWhile (!isExponentMark ·)).drop 1) else some 0) = some shift
  digits : AllDigits (whole ++ places)
  ne_nil : whole ++ places ≠ []

namespace Parts

variable {literal whole places : List Char} {shift : ℤ}

/-- The digits in front of the point and those behind it. -/
theorem takeWhile_point (h : Parts literal whole places shift) :
    (literal.takeWhile (!isExponentMark ·)).takeWhile (· != '.') = whole ∧
      ((literal.takeWhile (!isExponentMark ·)).dropWhile (· != '.')).drop 1 = places := by
  have hwhole : ∀ c ∈ whole, (c != '.') = true := fun c hc =>
    bne_iff_ne.mpr (ne_point_of_isDigit (h.digits c (List.mem_append_left _ hc)))
  rw [h.mantissa, List.takeWhile_append_of_pos hwhole, List.dropWhile_append_of_pos hwhole]
  split
  · exact ⟨by simp, by simp⟩
  · exact ⟨List.append_nil whole, (h.unpointed ‹_›).symm⟩

theorem mantissa_unpointed (h : Parts literal whole places shift) (hnone : '.' ∉ literal) :
    literal.takeWhile (!isExponentMark ·) = whole := by
  rw [h.mantissa, if_neg hnone, List.append_nil]

theorem contains_point (h : Parts literal whole places shift) :
    (literal.takeWhile (!isExponentMark ·)).contains '.' = decide ('.' ∈ literal) := by
  rw [h.mantissa]
  split
  · rename_i hpoint
    simp [hpoint]
  · rename_i hnone
    have hwhole : '.' ∉ whole := point_notMem fun c hc => h.digits c (List.mem_append_left _ hc)
    simp [hnone, hwhole]

theorem signedWhole_getD (h : Parts literal whole places shift) :
    (signedWhole? ((literal.dropWhile (!isExponentMark ·)).drop 1)).getD 0 = shift := by
  have hshift := h.shift_eq
  split at hshift
  · rw [hshift]
    rfl
  · rename_i hany
    have hdrop : literal.dropWhile (!isExponentMark ·) = [] :=
      List.dropWhile_eq_nil_iff.mpr fun c hc => by
        rw [Bool.not_eq_true', ← Bool.not_eq_true]
        exact fun hmark => hany (List.any_eq_true.mpr ⟨c, hc, hmark⟩)
    rw [hdrop, ← Option.some.inj hshift]
    rfl

/-- **A literal is read as what its parts say**: the number of its digits, shifted by the power of ten and
by the digits behind the point. -/
theorem ofLiteral_eq (h : Parts literal whole places shift) :
    ofLiteral? literal = some ⟨false, ofDigits (leadingDigits (whole ++ places)), shift - places.length⟩ := by
  obtain ⟨hwhole, hplaces⟩ := h.takeWhile_point
  have hsome : (whole.isEmpty && places.isEmpty) = false := by
    have hne := h.ne_nil
    rwa [ne_eq, List.append_eq_nil_iff, ← List.isEmpty_iff, ← List.isEmpty_iff, ← Bool.and_eq_true,
      Bool.not_eq_true] at hne
  have hall : (whole ++ places).all Text.isDigit = true := List.all_eq_true.mpr h.digits
  have hshift := h.shift_eq
  simp only [ofLiteral?, hwhole, hplaces, hsome, hall]
  split at hshift
  · rename_i hany
    rw [if_pos hany, hshift]
    rfl
  · rename_i hany
    rw [if_neg hany, ← Option.some.inj hshift]
    rfl

/-! ### Taking literals apart -/

/-- A mantissa is a literal that is not shifted. -/
theorem of_mantissa (hplain : ∀ c ∈ literal, isExponentMark c = false)
    (hsplit : literal = whole ++ if '.' ∈ literal then '.' :: places else [])
    (hunpointed : '.' ∉ literal → places = []) (hdigits : AllDigits (whole ++ places))
    (hsome : whole ++ places ≠ []) : Parts literal whole places 0 where
  mantissa := by
    rwa [List.takeWhile_eq_self_iff.mpr fun c hc => by rw [hplain c hc, Bool.not_false]]
  unpointed := hunpointed
  shift_eq := by
    rw [List.any_eq_false.mpr fun c hc => by rw [hplain c hc]; exact Bool.false_ne_true,
      if_neg Bool.false_ne_true]
  digits := hdigits
  ne_nil := hsome

/-- Digits without a point. -/
theorem of_whole (h : AllDigits whole) (hsome : whole ≠ []) : Parts whole whole [] 0 :=
  .of_mantissa (markFree_digits h)
    (by rw [if_neg (point_notMem h), List.append_nil]) (fun _ => rfl) (by rwa [List.append_nil])
    (by rwa [List.append_nil])

/-- Digits with a point. -/
theorem of_point (hwhole : AllDigits whole) (hplaces : AllDigits places) (hsome : whole ++ places ≠ []) :
    Parts (whole ++ '.' :: places) whole places 0 := by
  have hpoint : '.' ∈ whole ++ '.' :: places := List.mem_append_right _ List.mem_cons_self
  exact .of_mantissa (markFree_point hwhole hplaces) (by rw [if_pos hpoint])
    (fun hnone => absurd hpoint hnone)
    (fun c hc => (List.mem_append.mp hc).elim (hwhole c) (hplaces c)) hsome

variable {mantissa power : List Char} {mark : Char}

/-- A mantissa with a power of ten is shifted by it. -/
theorem scaled (h : Parts mantissa whole places 0) (hmark : isExponentMark mark = true)
    (hplain : ∀ c ∈ mantissa, isExponentMark c = false) (hpower : signedWhole? power = some shift)
    (hpoint : '.' ∉ power) : Parts (mantissa ++ mark :: power) whole places shift := by
  have hplain' : ∀ c ∈ mantissa, (!isExponentMark c) = true := fun c hc => by
    rw [hplain c hc, Bool.not_false]
  have hmantissa := h.mantissa
  rw [List.takeWhile_eq_self_iff.mpr hplain'] at hmantissa
  have hsame : '.' ∈ mantissa ++ mark :: power ↔ '.' ∈ mantissa := by
    refine ⟨fun hmem => (List.mem_append.mp hmem).resolve_right fun hmem => ?_, List.mem_append_left _⟩
    rcases List.mem_cons.mp hmem with rfl | hmem
    · exact absurd hmark (by decide)
    · exact hpoint hmem
  refine ⟨?_, fun hnone => h.unpointed (hnone ∘ hsame.mpr), ?_, h.digits, h.ne_nil⟩
  · rw [List.takeWhile_append_of_pos hplain', List.takeWhile_cons, hmark]
    simp only [hsame, Bool.not_true, Bool.false_eq_true, if_false, List.append_nil]
    exact hmantissa
  · rw [List.any_append, List.any_cons, hmark, Bool.true_or, Bool.or_true, if_pos rfl,
      List.dropWhile_append_of_pos hplain', List.dropWhile_cons, hmark]
    exact hpower

end Parts

/-- What follows the mark of a power of ten is a whole number. -/
theorem exists_signedWhole {sign digits : List Char} (hsign : sign = [] ∨ sign = ['-'] ∨ sign = ['+'])
    (hdigits : AllDigits digits) (hsome : digits ≠ []) : ∃ n, signedWhole? (sign ++ digits) = some n := by
  have hall : digits.all Text.isDigit = true := List.all_eq_true.mpr hdigits
  have hempty : digits.isEmpty = false := by simpa using hsome
  rcases hsign with rfl | rfl | rfl
  · obtain ⟨d, ds, rfl⟩ := List.exists_cons_of_ne_nil hsome
    have hd := hdigits d List.mem_cons_self
    refine ⟨ofDigits (leadingDigits (d :: ds)), ?_⟩
    rw [List.nil_append, signedWhole?, hall, hempty]
    · rfl
    · rintro rest heq
      cases heq
      exact absurd hd (by decide)
    · rintro rest heq
      cases heq
      exact absurd hd (by decide)
  · exact ⟨_, by simp only [List.singleton_append, signedWhole?, hall, hempty]; rfl⟩
  · exact ⟨_, by simp only [List.singleton_append, signedWhole?, hall, hempty]; rfl⟩

theorem exists_mantissa_parts {mantissa : List Char} (h : IsMantissa mantissa) :
    (∀ c ∈ mantissa, isExponentMark c = false) ∧ ∃ whole places, Parts mantissa whole places 0 := by
  cases h with
  | whole h hsome => exact ⟨markFree_digits h, _, _, .of_whole h hsome⟩
  | point hwhole hplaces hsome =>
    refine ⟨markFree_point hwhole hplaces, _, _, .of_point hwhole hplaces ?_⟩
    rwa [ne_eq, List.append_eq_nil_iff, not_and_or]

/-- **A number can be taken apart.** -/
theorem exists_parts {literal : List Char} (h : IsNumber literal) :
    ∃ whole places shift, Parts literal whole places shift := by
  cases h with
  | plain h =>
    obtain ⟨-, whole, places, hparts⟩ := exists_mantissa_parts h
    exact ⟨whole, places, 0, hparts⟩
  | scaled h hpower =>
    obtain ⟨hplain, whole, places, hparts⟩ := exists_mantissa_parts h
    obtain @⟨mark, sign, digits, hmark, hsign, hdigits, hsome⟩ := hpower
    obtain ⟨shift, hshift⟩ := exists_signedWhole hsign hdigits hsome
    have hpoint : '.' ∉ sign ++ digits := by
      rw [List.mem_append, not_or]
      exact ⟨by rcases hsign with rfl | rfl | rfl <;> decide, point_notMem hdigits⟩
    exact ⟨whole, places, shift, hparts.scaled hmark hplain hshift hpoint⟩

end Ballpark.Decimal
