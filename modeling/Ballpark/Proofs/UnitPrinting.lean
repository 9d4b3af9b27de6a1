import Ballpark.Proofs.DecimalText
import Ballpark.Proofs.NameResolution
import Ballpark.Proofs.UnitArithmetic
import Ballpark.Proofs.UnitLetters
import Ballpark.Proofs.UnitShape

/-!
# Units are read as they are shown

The text of a unit puts its positive powers over the others. It leaves a power out that is one, writes a
one where nothing stands over the slash, and parentheses where several factors stand under it. Read by the
rules of the grammar, such a text gives the factors back, in their order and with the number one. There is
a lemma for each rule that is used (`CompoundUnit.Reads`), and a text is put together from them in the way
in which it is written (`CompoundUnit.reads_text`).

The symbols of the tables have letters that the tokenizer knows, but a label is any text behind a tick. So
a unit whose symbols stand for its own factors is read back if, and only if, its labels are names that the
tokenizer knows (`CompoundUnit.ofText_text`). Its powers have to be whole numbers that a machine has
exactly.
-/

namespace Ballpark

open UnitTree (Level)

/-! ## Whole numbers -/

theorem UnitToken.isNumber_toString (n : Nat) : IsNumber (toString n).toList := by
  rw [Decimal.toString_eq_digitText, String.toList_ofList]
  refine .plain (.whole (fun c hc => Decimal.isDigit_of_mem_digitText hc) fun hnil => ?_)
  have hsome := Decimal.digitText_isEmpty n
  rw [hnil] at hsome
  cases hsome

/-- What is used of numbers: whole numbers are exact as far as a machine has all of them, and so is
arithmetic with one. -/
structure Scalar.WholesExact (R : Type) [Scalar R] : Prop where
  exact_ofDecimal : ∀ n ≤ 2 ^ 53, exact (ofDecimal (Decimal.ofNat n) : R) = .finite false n
  ofDecimal_one : (ofDecimal (Decimal.ofNat 1) : R) = ofNat 1
  isFinite_ofNat : ∀ n ≤ 2 ^ 53, isFinite (ofNat n : R) = true
  isZero_one : isZero (ofNat 1 : R) = false
  one_mul_one : (ofNat 1 * ofNat 1 : R) = ofNat 1
  one_div_one : (ofNat 1 / ofNat 1 : R) = ofNat 1
  one_pow : ∀ n ≤ 2 ^ 53, pow (ofNat 1 : R) (ofNat n) = ofNat 1

theorem Scalar.wholesExact_real : WholesExact ℝ where
  exact_ofDecimal n _ := by
    have hcast : (ofDecimal (Decimal.ofNat n) : ℝ) = ((n : Rat) : ℝ) := by
      rw [ofDecimal_ofNat, Rat.cast_natCast]
    have hsign : ¬((n : Rat) : ℝ) < 0 := not_lt.mpr (by positivity)
    rw [hcast, exact_real, decide_eq_false hsign, ← Rat.cast_abs, RealNumber.fraction_ratCast, Nat.abs_cast]
  ofDecimal_one := by rw [ofDecimal_ofNat, ofNat_real]
  isFinite_ofNat _ _ := rfl
  isZero_one := by simp
  one_mul_one := by simp
  one_div_one := by simp
  one_pow n _ := by simp

variable {R : Type} [Scalar R]

namespace Scalar.WholesExact

variable (h : WholesExact R)
include h

theorem isInfinite_ofNat {n : Nat} (hn : n ≤ 2 ^ 53) : isInfinite (ofNat n : R) = false := by
  rw [isInfinite, h.isFinite_ofNat n hn, Bool.not_true, Bool.false_and]

theorem powRat_one {n : Nat} (hn : n ≤ 2 ^ 53) :
    Checked.powRat (ofNat 1 : R) n = .ok (ofNat 1) := by
  have hexponent : Checked.ofRat (n : Rat) = .ok (ofNat n : R) := by
    rw [Checked.ofRat, show (ofRat (n : Rat) : R) = ofNat n from rfl, Checked.withinRange,
      h.isInfinite_ofNat hn]
    rfl
  have hone : isInfinite (ofNat 1 : R) = false := h.isInfinite_ofNat (by decide)
  rw [Checked.powRat, hexponent]
  simp only [bind, Except.bind, Checked.pow, h.isZero_one, h.one_pow n hn, hone, Bool.false_and,
    Bool.false_eq_true, if_false]

theorem div_one : Checked.div (ofNat 1 : R) (ofNat 1) = .ok (ofNat 1) := by
  rw [Checked.div, h.isZero_one, h.one_div_one]
  rfl

/-- A whole exponent is read as it is written. -/
theorem evaluate_number {n : Nat} (hn : n ≤ 2 ^ 53) :
    (ExponentExpression.number (toString n)).evaluate (R := R) = .ok (n : Rat) := by
  rw [ExponentExpression.evaluate, Decimal.ofText_toString, Exponent.ofScalar, h.exact_ofDecimal n hn]
  rfl

end Scalar.WholesExact

/-! ## Factors -/

/-- A factor as the text of a unit shows it. -/
def UnitTerm.shown (t : UnitTerm R) : String :=
  t.text t.power

/-- The factor under the slash. -/
def UnitTerm.inverse (t : UnitTerm R) : UnitTerm R :=
  { t with power := -t.power }

omit [Scalar R] in
theorem UnitTerm.inverse_inverse (t : UnitTerm R) : t.inverse.inverse = t := by
  rw [inverse, inverse, neg_neg]

omit [Scalar R] in
theorem UnitTerm.inverse_comp : (UnitTerm.inverse ∘ UnitTerm.inverse : UnitTerm R → UnitTerm R) = id :=
  funext inverse_inverse

/-- The symbol of a factor stands for the factor's own unit, without a scale, and shows itself. -/
def UnitTerm.IsOwn (t : UnitTerm R) : Prop :=
  ∃ r, UnitName.resolve? t.symbol = some r ∧ r.meaning.toUnit = t.unit ∧ r.scale = (Scalar.ofNat 1 : R) ∧
    r.symbol = t.symbol

/-- A factor whose text can be read: its symbol is a name that the tokenizer knows and stands for its own
unit, and its power is a whole number above or at zero. -/
structure UnitTerm.Readable (t : UnitTerm R) : Prop where
  isName : UnitToken.IsName t.symbol.toList
  not_per : t.symbol ≠ "per"
  own : t.IsOwn
  whole : ∃ n : Nat, n ≤ 2 ^ 53 ∧ t.power = n

/-! ## Texts of products -/

namespace CompoundUnit

open UnitToken (SpelledFront)

/-- A text reads, under a rule of the grammar, as factors and the number one. -/
inductive Reads (level : Level) (ts : List (UnitTerm R)) (text : String) : Prop
  | intro {s : UnitExpression} {tokens : List UnitToken} (hwrites : s.Writes level tokens)
      (hvalue : s.evaluate = .ok ⟨ts, Scalar.ofNat 1⟩) (hspelled : SpelledFront tokens text.toList) :
      Reads level ts text

namespace Reads

variable {level : Level} {ts us : List (UnitTerm R)} {a b : String}

theorem product_of_power : Reads .power ts a → Reads .product ts a
  | intro hwrites hvalue hspelled => intro (.power hwrites) hvalue hspelled

theorem product_of_atom : Reads .atom ts a → Reads .product ts a
  | intro hwrites hvalue hspelled => intro (.power (.atom hwrites)) hvalue hspelled

theorem quotient_of_product : Reads .product ts a → Reads .quotient ts a
  | intro hwrites hvalue hspelled => intro (.product hwrites) hvalue hspelled

theorem enclosed : Reads .quotient ts a → Reads .atom ts ("(" ++ a ++ ")") := by
  rintro ⟨hwrites, hvalue, hspelled⟩
  refine intro (.enclosed hwrites) hvalue ?_
  rw [String.toList_append, String.toList_append]
  exact hspelled.close.sign (by decide)

section Exact

variable (hexact : Scalar.WholesExact R)
include hexact

/-- A factor is its symbol alone, or its symbol with a sign and its power behind it. -/
theorem factor {t : UnitTerm R} (ht : t.Readable) : Reads .power [t] t.shown := by
  obtain ⟨r, hr, hunit, hscale, hsymbol⟩ := ht.own
  obtain ⟨n, hn, hpower⟩ := ht.whole
  have hname : (UnitExpression.name t.symbol).evaluate =
      .ok (⟨[⟨t.symbol, t.unit, 1⟩], Scalar.ofNat 1⟩ : ScaledTerms R) := by
    rw [UnitExpression.evaluate, UnitReader.named, hr]
    simp only [hunit, hscale, hsymbol]
  have hspelled := SpelledFront.name ht.isName ht.not_per
  rw [UnitTerm.shown, UnitTerm.text, Dimension.factorText]
  -- the power one is not written
  split
  · rename_i hone
    rw [← hone] at hname
    exact intro (.atom .name) hname hspelled
  · have htext : Dimension.powerText t.power = toString n := by
      rw [hpower]
      rfl
    have hwrites : (UnitExpression.power (.name t.symbol) (.number (toString n))).Writes .power
        ([.name t.symbol] ++ .mark "^" :: [.number (toString n)]) :=
      .raised .name List.mem_cons_self .number
    refine intro hwrites ?_ ?_
    · rw [UnitExpression.evaluate_power hname (hexact.evaluate_number hn), ScaledTerms.pow,
        hexact.powRat_one hn, ← hpower]
      simp only [bind, Except.bind, List.map_singleton, one_mul]
      rfl
    · have hnumber := SpelledFront.number (UnitToken.isNumber_toString n)
      rw [htext, String.toList_append, String.toList_append, List.append_assoc]
      exact hspelled.append (hnumber.sign (by decide)) (UnitToken.follows_cons (by decide))

/-- The number one stands for no factors at all. -/
theorem one : Reads (R := R) .atom [] "1" := by
  have hvalue : (UnitExpression.number (toString 1)).evaluate = .ok (⟨[], Scalar.ofNat 1⟩ : ScaledTerms R) := by
    rw [UnitExpression.evaluate, Decimal.ofText_toString, hexact.ofDecimal_one]
  exact intro .number hvalue (.number (UnitToken.isNumber_toString 1))

theorem beside (ha : Reads .product ts a) (hb : Reads .power us b) :
    Reads .product (ts ++ us) (a ++ " " ++ b) := by
  obtain ⟨hleft, hlvalue, hlspelled⟩ := ha
  obtain ⟨hright, hrvalue, hrspelled⟩ := hb
  refine intro (.beside hleft hright) ?_ ?_
  · rw [UnitExpression.evaluate_product hlvalue hrvalue, ScaledTerms.multiply, hexact.one_mul_one]
  · obtain ⟨token, tokens, rfl, -⟩ := hright.opens
    rw [String.toList_append, String.toList_append, List.append_assoc]
    exact hlspelled.append hrspelled.blank (UnitToken.follows_cons (by decide))

theorem divided (ha : Reads .quotient ts a) (hb : Reads .product us b) :
    Reads .quotient (ts ++ us.map UnitTerm.inverse) (a ++ " / " ++ b) := by
  obtain ⟨habove, havalue, haspelled⟩ := ha
  obtain ⟨hbelow, hbvalue, hbspelled⟩ := hb
  refine intro (.divided habove hbelow) ?_ ?_
  · rw [UnitExpression.evaluate_quotient havalue hbvalue, ScaledTerms.divide, hexact.div_one]
    rfl
  · obtain ⟨token, tokens, rfl, -⟩ := hbelow.opens
    rw [String.toList_append, String.toList_append, List.append_assoc]
    exact haspelled.append (hbspelled.blank.sign (by decide)).blank (UnitToken.follows_cons (by decide))

/-- More factors side by side. -/
theorem products (ha : Reads .product ts a) (hus : ∀ t ∈ us, t.Readable) :
    Reads .product (ts ++ us) (" ".intercalate (a :: us.map UnitTerm.shown)) := by
  induction us generalizing ts a with
  | nil => rwa [List.append_nil, List.map_nil, String.intercalate_singleton]
  | cons t us ih =>
    obtain ⟨ht, hus⟩ := List.forall_mem_cons.mp hus
    rw [List.append_cons]
    exact ih (ha.beside hexact (factor hexact ht)) hus

/-- Factors side by side, at least one. -/
theorem listed (hsome : ts ≠ []) (h : ∀ t ∈ ts, t.Readable) :
    Reads .product ts (" ".intercalate (ts.map UnitTerm.shown)) := by
  obtain ⟨t, rest, rfl⟩ := List.exists_cons_of_ne_nil hsome
  obtain ⟨ht, hrest⟩ := List.forall_mem_cons.mp h
  exact (factor hexact ht).product_of_power.products hexact hrest

/-- A text that reads as the factors of a canonical unit is read as the unit. -/
theorem ofText {u : CompoundUnit R} (hu : u.Canonical) (ha : Reads .quotient u.terms a) :
    CompoundUnit.ofText a = .ok (u, Scalar.ofNat 1) := by
  obtain ⟨hwrites, hvalue, hspelled⟩ := ha
  obtain ⟨token, tokens, rfl, -⟩ := hwrites.opens
  rw [ofText_of_writes hspelled.ofText.2 hwrites, hvalue]
  simp only [bind, Except.bind, canonicalize_canonical hu, hexact.one_mul_one]
  rfl

end Exact

theorem isEmpty (ha : Reads level ts a) : a.isEmpty = false := by
  obtain ⟨hwrites, -, hspelled⟩ := ha
  obtain ⟨token, tokens, rfl, -⟩ := hwrites.opens
  rw [String.isEmpty_eq_false_iff, ne_eq, ← String.toList_inj]
  exact hspelled.spelled.ne_nil

end Reads

/-! ## Rendered units -/

/-- Symbols of the tables are names that the tokenizer knows; of labels that must be asked for. -/
theorem readable_of_isOwn {t : UnitTerm R} (hown : t.IsOwn) (hlabel : t.symbol.toList.head? = some '\'' →
    UnitToken.IsName t.symbol.toList) (hwhole : ∃ n : Nat, n ≤ 2 ^ 53 ∧ t.power = n) : t.Readable := by
  obtain ⟨r, hr, -, -, hsymbol⟩ := id hown
  refine ⟨?_, ?_, hown, hwhole⟩
  · by_cases htick : t.symbol.toList.head? = some '\''
    · exact hlabel htick
    · exact Vocabulary.isName_of_isLettered (UnitName.isLettered_of_resolve? hr hsymbol htick)
  · intro hper
    have hnone := UnitName.not_isKnown_per
    rw [← hper, UnitName.isKnown, hr] at hnone
    cases hnone

/-- In front of a slash no factors at all are shown as the number one. -/
theorem reads_numerator (hexact : Scalar.WholesExact R) {ts : List (UnitTerm R)}
    (h : ∀ t ∈ ts, t.Readable) : Reads .quotient ts (if (" ".intercalate (ts.map UnitTerm.shown)).isEmpty
      then "1" else " ".intercalate (ts.map UnitTerm.shown)) := by
  cases ts with
  | nil => exact (Reads.one hexact).product_of_atom.quotient_of_product
  | cons t rest =>
    have hlisted := Reads.listed hexact (List.cons_ne_nil t rest) h
    rw [hlisted.isEmpty]
    exact hlisted.quotient_of_product

/-- **A unit with factors reads as these factors**: its positive powers over the others. -/
theorem reads_text (hexact : Scalar.WholesExact R) {u : CompoundUnit R} (hu : u.Canonical)
    (hsome : u.terms ≠ []) (habove : ∀ t ∈ u.terms, 0 < t.power → t.Readable)
    (hbelow : ∀ t ∈ u.terms, t.power < 0 → t.inverse.Readable) : Reads .quotient u.terms u.text := by
  have hterms : u.terms.filter (0 < ·.power) ++ u.terms.filter (·.power < 0) = u.terms := hu.ordered
  have htop : ∀ t ∈ u.terms.filter (0 < ·.power), t.Readable := fun t ht =>
    habove t (List.mem_filter.mp ht).1 (of_decide_eq_true (List.mem_filter.mp ht).2)
  have hbottom : ∀ t ∈ u.terms.filter (·.power < 0), t.inverse.Readable := fun t ht =>
    hbelow t (List.mem_filter.mp ht).1 (of_decide_eq_true (List.mem_filter.mp ht).2)
  rw [text]
  generalize u.terms.filter (0 < ·.power) = above at hterms htop ⊢
  generalize u.terms.filter (·.power < 0) = below at hterms hbottom ⊢
  rw [← hterms] at hsome ⊢
  rcases below with _ | ⟨t, _ | ⟨s, rest⟩⟩
  · -- no slash
    rw [List.append_nil] at hsome ⊢
    exact (Reads.listed hexact hsome htop).quotient_of_product
  · -- one factor under it
    have hunder := (Reads.factor hexact (hbottom t List.mem_cons_self)).product_of_power
    have hover := (reads_numerator hexact htop).divided hexact hunder
    rwa [List.map_singleton, UnitTerm.inverse_inverse] at hover
  · -- several, in parentheses
    have hlisted := Reads.listed hexact (by simp) (List.forall_mem_map.mpr hbottom)
    have hunder := hlisted.quotient_of_product.enclosed.product_of_atom
    have hover := (reads_numerator hexact htop).divided hexact hunder
    rw [List.map_map, UnitTerm.inverse_comp, List.map_id, List.map_map] at hover
    have hparenthesis : ∀ a b : String, a ++ " / " ++ ("(" ++ b ++ ")") = a ++ " / (" ++ b ++ ")" := by
      intro a b
      have hsplit : " / (" = " / " ++ "(" := rfl
      simp only [hsplit, String.append_assoc]
    rw [hparenthesis] at hover
    exact hover

end CompoundUnit

/-! ## Symbols of what is read -/

namespace UnitExpression

/-- The names in an expression. -/
def names : UnitExpression → List String
  | name text => [text]
  | number _ => []
  | product left right => left.names ++ right.names
  | quotient above below => above.names ++ below.names
  | power base _ => base.names

theorem Writes.names_mem {level : Level} {s : UnitExpression} {tokens : List UnitToken}
    (h : s.Writes level tokens) : ∀ name ∈ s.names, .name name ∈ tokens := by
  induction h <;> grind [names]

/-- The factors of an expression's value show the symbols of its names. -/
theorem symbols_of_evaluate {s : UnitExpression} {a : ScaledTerms R} (ha : s.evaluate = .ok a) :
    ∀ t ∈ a.terms, ∃ name ∈ s.names, ∃ r, UnitName.resolve? name = some r ∧ r.symbol = t.symbol := by
  induction s generalizing a with
  | name text =>
    rw [evaluate, UnitReader.named] at ha
    split at ha
    · rename_i r hr
      cases ha
      exact List.forall_mem_singleton.mpr ⟨text, List.mem_singleton_self _, r, hr, rfl⟩
    · cases ha
  | number text =>
    cases ha
    exact fun t ht => absurd ht List.not_mem_nil
  -- the symbols of a product are those of its factors, and a power keeps them
  | product left right ihleft ihright =>
    obtain ⟨b, hb, ha⟩ := ok_of_bind ha
    obtain ⟨c, hc, ha⟩ := ok_of_bind ha
    cases ha
    refine List.forall_mem_append.mpr ⟨fun t ht => ?_, fun t ht => ?_⟩
    · obtain ⟨name, hname, hr⟩ := ihleft hb t ht
      exact ⟨name, List.mem_append_left _ hname, hr⟩
    · obtain ⟨name, hname, hr⟩ := ihright hc t ht
      exact ⟨name, List.mem_append_right _ hname, hr⟩
  | quotient above below ihabove ihbelow =>
    obtain ⟨b, hb, ha⟩ := ok_of_bind ha
    obtain ⟨c, hc, ha⟩ := ok_of_bind ha
    obtain ⟨scale, -, ha⟩ := ok_of_bind ha
    cases ha
    refine List.forall_mem_append.mpr ⟨fun t ht => ?_, List.forall_mem_map.mpr fun t ht => ?_⟩
    · obtain ⟨name, hname, hr⟩ := ihabove hb t ht
      exact ⟨name, List.mem_append_left _ hname, hr⟩
    · obtain ⟨name, hname, hr⟩ := ihbelow hc t ht
      exact ⟨name, List.mem_append_right _ hname, hr⟩
  | power base exponent ih =>
    obtain ⟨b, hb, ha⟩ := ok_of_bind ha
    obtain ⟨k, -, ha⟩ := ok_of_bind ha
    obtain ⟨scale, -, ha⟩ := ok_of_bind ha
    cases ha
    exact List.forall_mem_map.mpr (ih hb)

end UnitExpression

/-- The symbol that a name shows is a name of units if it is a label. -/
theorem UnitName.isName_of_label {name : String} {r : ResolvedName} (hname : UnitToken.IsName name.toList)
    (h : resolve? name = some r) (hlabel : r.symbol.toList.head? = some '\'') :
    UnitToken.IsName r.symbol.toList := by
  rcases symbol_or_prefix h with ⟨-, hsymbol⟩ | hprefix
  · exact hsymbol ▸ hname
  · -- a tick stands at the front of a name or nowhere
    obtain ⟨k, hpos, -, hsymbol⟩ := symbol_of_resolveWithPrefix? hprefix
    rw [hsymbol, String.toList_ofList] at hlabel
    obtain ⟨rest, hrest⟩ := List.head?_eq_some_iff.mp hlabel
    have htick : '\'' ∈ name.toList.tail := by
      rw [← List.drop_one]
      exact List.drop_subset_drop_left _ hpos (hrest ▸ List.mem_cons_self)
    exact absurd (hname.continues_tail _ htick) (by decide)

namespace CompoundUnit

/-- A unit that is read shows symbols of names that its text may hold. -/
theorem symbols_of_ofText {text : String} {u : CompoundUnit R} {scale : R}
    (h : ofText text = .ok (u, scale)) : ∀ t ∈ u.terms, ∃ name r, UnitToken.IsName name.toList ∧
      UnitName.resolve? name = some r ∧ r.symbol = t.symbol := by
  rw [ofText] at h
  simp only at h
  split at h
  · cases h
    exact fun t ht => absurd ht List.not_mem_nil
  obtain ⟨tokens, htokens, h⟩ := ok_of_bind h
  obtain ⟨read, hread, h⟩ := ok_of_bind h
  obtain ⟨⟨v, freed⟩, hv, h⟩ := ok_of_bind h
  cases h
  obtain ⟨s, hwrites, hs⟩ := (UnitReader.all_explained _ _).of_ok hread
  intro t ht
  obtain ⟨origin, horigin, hsymbol, -⟩ := ((canonicalize_shape _).of_ok hv).origin t ht
  obtain ⟨name, hname, r, hr, hshown⟩ := UnitExpression.symbols_of_evaluate hs origin horigin
  exact ⟨name, r, UnitToken.isName_of_scan htokens (hwrites.names_mem name hname), hr, hshown.trans hsymbol⟩

/-- **Units are read as they are shown.** The text of a canonical unit, whose powers are whole numbers that
a machine has and whose symbols stand for its own factors, gives the unit back with the scale one exactly
if the tokenizer knows all of its labels. -/
theorem ofText_text (hexact : Scalar.WholesExact R) {u : CompoundUnit R} (hu : u.Canonical)
    (hwhole : ∀ t ∈ u.terms, ∃ n : Int, n.natAbs ≤ 2 ^ 53 ∧ t.power = n) (hown : ∀ t ∈ u.terms, t.IsOwn) :
    ofText u.text = .ok (u, Scalar.ofNat 1) ↔
      ∀ t ∈ u.terms, t.symbol.toList.head? = some '\'' → UnitToken.IsName t.symbol.toList := by
  refine ⟨fun h t ht hlabel => ?_, fun hlabels => ?_⟩
  · obtain ⟨name, r, hname, hr, hsymbol⟩ := symbols_of_ofText h t ht
    rw [← hsymbol] at hlabel ⊢
    exact UnitName.isName_of_label hname hr hlabel
  by_cases hnone : u.terms = []
  · obtain ⟨ts⟩ := u
    obtain rfl : ts = [] := hnone
    rfl
  refine (reads_text hexact hu hnone (fun t ht hpos => ?_) fun t ht hneg => ?_).ofText hexact hu
  · obtain ⟨n, hn, hpower⟩ := hwhole t ht
    refine readable_of_isOwn (hown t ht) (hlabels t ht) ⟨n.natAbs, hn, ?_⟩
    rw [Nat.cast_natAbs, Int.cast_abs, ← hpower, abs_of_pos hpos]
  · obtain ⟨n, hn, hpower⟩ := hwhole t ht
    refine readable_of_isOwn (hown t ht) (hlabels t ht) ⟨n.natAbs, hn, ?_⟩
    rw [Nat.cast_natAbs, Int.cast_abs, ← hpower, abs_of_neg hneg, UnitTerm.inverse]

/-! ### Crates, and a label with a foreign letter -/

theorem isOwn_labelTerm (label : String × Rat) : (labelTerm label : UnitTerm R).IsOwn := by
  refine ⟨_, UnitName.resolve?_tick label.1, ?_, rfl, rfl⟩
  rw [UnitName.labelName_tick]
  rfl

/-- The second. -/
def second : VocabularyEntry :=
  .base ⟨"second", ["s", "sec"], ["seconds"], [(.time, 1)], .exact 1, true⟩

/-- One over squared seconds and crates. -/
noncomputable def perSecondsAndCrates : CompoundUnit ℝ :=
  ⟨[⟨"s", second.toUnit, -2⟩, labelTerm ("crate", -1)]⟩

theorem canonical_perSecondsAndCrates : perSecondsAndCrates.Canonical where
  nonzero := by simp [perSecondsAndCrates, labelTerm]
  dimensional := by
    simp only [perSecondsAndCrates, List.forall_mem_cons]
    exact ⟨by decide +kernel, by decide +kernel, by simp⟩
  distinct := by decide +kernel
  positiveFirst := by simp [perSecondsAndCrates, labelTerm]
  plain h := absurd h (by decide +kernel)

/-- A unit that is shown with a one, a power and parentheses is read back. -/
theorem perSecondsAndCrates_text :
    ofText "1 / (s^2 'crate)" = .ok (perSecondsAndCrates, (Scalar.ofNat 1 : ℝ)) := by
  have hsecond : UnitName.resolve? "s" = some ⟨.entry second, none, "s"⟩ :=
    UnitName.resolve?_of_lookup? (by decide +kernel) (by decide +kernel)
  have hwhole : ∀ t ∈ perSecondsAndCrates.terms, ∃ n : Int, n.natAbs ≤ 2 ^ 53 ∧ t.power = n :=
    List.forall_mem_cons.mpr ⟨⟨-2, by decide, rfl⟩, List.forall_mem_singleton.mpr ⟨-1, by decide, rfl⟩⟩
  have hown : ∀ t ∈ perSecondsAndCrates.terms, t.IsOwn :=
    List.forall_mem_cons.mpr ⟨⟨_, hsecond, rfl, rfl, rfl⟩,
      List.forall_mem_singleton.mpr (isOwn_labelTerm ("crate", -1))⟩
  have hlabels : ∀ t ∈ perSecondsAndCrates.terms, t.symbol.toList.head? = some '\'' →
      UnitToken.IsName t.symbol.toList :=
    List.forall_mem_cons.mpr ⟨fun h => absurd h (by decide), List.forall_mem_singleton.mpr fun _ =>
      .label (by decide) (List.all_eq_true.mp (by decide))⟩
  have hread := ofText_text Scalar.wholesExact_real canonical_perSecondsAndCrates hwhole hown
  exact hread.mpr hlabels

/-- The tokenizer knows no accents: a label with one is shown, but it is not read. -/
theorem accented_label_refused : ∃ u : CompoundUnit ℝ, u.text = "'café" ∧ u.Canonical ∧
    (∀ t ∈ u.terms, ∃ n : Int, n.natAbs ≤ 2 ^ 53 ∧ t.power = n) ∧ (∀ t ∈ u.terms, t.IsOwn) ∧
    ∃ f : Fault ℝ, ofText u.text = .error f ∧ f.kind = .parse := by
  have hforeign : 'é' ∈ "'café".toList := by decide
  obtain ⟨f, hparse, hf⟩ := ofText_foreign (R := ℝ) hforeign (by decide) (by decide)
  refine ⟨⟨[labelTerm ("café", 1)]⟩, rfl, ⟨?_, ?_, ?_, ?_, ?_⟩, ?_, ?_, f, hf, hparse⟩
  · exact List.forall_mem_singleton.mpr one_ne_zero
  · exact List.forall_mem_singleton.mpr (by decide +kernel)
  · exact List.nodup_singleton _
  · exact List.pairwise_singleton _ _
  · exact fun h => absurd h (by decide +kernel)
  · exact List.forall_mem_singleton.mpr ⟨1, by decide, rfl⟩
  · exact List.forall_mem_singleton.mpr (isOwn_labelTerm ("café", 1))

end CompoundUnit

end Ballpark
