import Ballpark.Proofs.UnitText
import Ballpark.Proofs.UnitSpelling

/-!
# The grammar of units

A unit expression is a tree of names and numbers under products, quotients and whole powers. Its size
and its dimension follow the tree; what tokens write it follows the grammar, one rule of `Writes` for
each of its alternatives. Juxtaposition is a product, and a slash divides by the whole product behind it.

What a tree is written as is an expression that has a value, and the value has the size and the dimension
of the tree (`UnitTree.Writes.evaluates`); so every writing of a tree is read as factors and a number of
the same size and dimension.
-/

namespace Ballpark

/-- A unit expression. -/
inductive UnitTree where
  /-- a name and what it stands for -/
  | name (text : String) (meaning : ResolvedName) (h : UnitName.resolve? text = some meaning)
  /-- a number above zero, as it is written -/
  | number (text : String) (h : 0 < (Decimal.ofText text).value)
  | product (left right : UnitTree)
  | quotient (above below : UnitTree)
  | power (base : UnitTree) (exponent : Int)

namespace UnitTree

/-- The size of a unit expression in base units. -/
noncomputable def size : UnitTree → ℝ
  | name _ meaning _ => meaning.scale * (meaning.meaning.toUnit : NamedUnit ℝ).factor
  | number text _ => (Decimal.ofText text).value
  | product left right => left.size * right.size
  | quotient above below => above.size / below.size
  | power base exponent => base.size ^ exponent

/-- The dimension of a unit expression. -/
def dimension : UnitTree → Dimension
  | name _ meaning _ => meaning.meaning.dimension
  | number _ _ => Dimension.one
  | product left right => left.dimension.multiply right.dimension
  | quotient above below => above.dimension.divide below.dimension
  | power base exponent => base.dimension.pow exponent

/-- Tokens that write an exponent: a whole number, maybe behind a sign, in any number of
parentheses. -/
inductive WritesExponent : Int → List UnitToken → Prop
  | number {text : String} {k : Int} (h : (Decimal.ofText text).value = k) :
      WritesExponent k [.number text]
  | negative {text : String} {k : Int} (h : (Decimal.ofText text).value = k) :
      WritesExponent (-k) [.mark "-", .number text]
  | enclosed {k : Int} {tokens : List UnitToken} (h : WritesExponent k tokens) :
      WritesExponent k (.mark "(" :: tokens ++ [.mark ")"])

/-- **The grammar**: tokens that write a unit expression under a rule. -/
inductive Writes : Level → UnitTree → List UnitToken → Prop
  | name {text : String} {meaning : ResolvedName} {h : UnitName.resolve? text = some meaning} :
      Writes .atom (.name text meaning h) [.name text]
  | number {text : String} {h : 0 < (Decimal.ofText text).value} :
      Writes .atom (.number text h) [.number text]
  | enclosed {t : UnitTree} {tokens : List UnitToken} (h : Writes .quotient t tokens) :
      Writes .atom t (.mark "(" :: tokens ++ [.mark ")"])
  | atom {t : UnitTree} {tokens : List UnitToken} (h : Writes .atom t tokens) :
      Writes .power t tokens
  | raised {t : UnitTree} {k : Int} {tokens exponent : List UnitToken} {mark : String}
      (h : Writes .atom t tokens) (hmark : mark ∈ ["^", "**"]) (hexponent : WritesExponent k exponent) :
      Writes .power (.power t k) (tokens ++ .mark mark :: exponent)
  | power {t : UnitTree} {tokens : List UnitToken} (h : Writes .power t tokens) :
      Writes .product t tokens
  | times {s t : UnitTree} {left right : List UnitToken} {mark : String} (hs : Writes .product s left)
      (hmark : mark ∈ ["*", "·"]) (ht : Writes .power t right) :
      Writes .product (.product s t) (left ++ .mark mark :: right)
  | beside {s t : UnitTree} {left right : List UnitToken} (hs : Writes .product s left)
      (ht : Writes .power t right) : Writes .product (.product s t) (left ++ right)
  | product {t : UnitTree} {tokens : List UnitToken} (h : Writes .product t tokens) :
      Writes .quotient t tokens
  | divided {s t : UnitTree} {above below : List UnitToken} (hs : Writes .quotient s above)
      (ht : Writes .product t below) :
      Writes .quotient (.quotient s t) (above ++ .mark "/" :: below)

/-- Every expression begins with an atom. -/
theorem Writes.opens {level : Level} {t : UnitTree} {tokens : List UnitToken}
    (h : t.Writes level tokens) : Opens tokens := by
  induction h with
  | name => exact ⟨_, _, rfl, fun _ heq => nomatch heq⟩
  | number => exact ⟨_, _, rfl, fun _ heq => nomatch heq⟩
  | enclosed => exact ⟨_, _, rfl, fun _ heq => (UnitToken.mark.inj heq).symm⟩
  | atom _ ih | power _ ih | product _ ih => exact ih
  | raised _ _ _ ih => exact ih.append _
  | times _ _ _ ih | beside _ _ ih | divided _ _ ih => exact ih.append _

theorem normal_dimension (t : UnitTree) : t.dimension.Normal := by
  induction t with
  | name _ meaning _ => exact meaning.meaning.normal
  | number => exact Dimension.normal_one
  | product _ _ ih => exact ih.multiply _
  | quotient _ _ ih => exact ih.divide _
  | power _ _ ih => exact ih.pow _

end UnitTree

/-! ## Meanings -/

/-- Factors and a number have the size and the dimension of an expression. -/
structure ScaledTerms.Means (a : ScaledTerms ℝ) (t : UnitTree) : Prop where
  known : a.Known
  scale_pos : 0 < a.scale
  size : a.scale * CompoundUnit.size ⟨a.terms⟩ = t.size
  power : ∀ x, (CompoundUnit.dimension ⟨a.terms⟩).power x = t.dimension.power x

namespace ScaledTerms.Means

variable {a b : ScaledTerms ℝ} {s t : UnitTree}

theorem name {text : String} {r : ResolvedName} (h : UnitName.resolve? text = some r) :
    Means ⟨[⟨r.symbol, r.meaning.toUnit, 1⟩], r.scale⟩ (.name text r h) where
  known u hu := by
    rw [List.mem_singleton.mp hu]
    exact ⟨text, r, h, rfl⟩
  scale_pos := by
    rw [ResolvedName.scale]
    split
    · simp
    · simp only [Scalar.pow_real, Scalar.ofNat_real]
      exact Real.rpow_pos_of_pos (by norm_num) _
  size := by simp [UnitTree.size]
  power x := by simp [UnitTree.dimension, UnitMeaning.toUnit_dimension]

theorem number {text : String} (h : 0 < (Decimal.ofText text).value) :
    Means ⟨[], Scalar.ofDecimal (Decimal.ofText text)⟩ (.number text h) where
  known := fun _ hu => absurd hu List.not_mem_nil
  scale_pos := by simpa using h
  size := by simp [UnitTree.size]
  power x := by simp [UnitTree.dimension]

theorem multiply (ha : a.Means s) (hb : b.Means t) : (a.multiply b).Means (.product s t) where
  known := ha.known.multiply hb.known
  scale_pos := mul_pos ha.scale_pos hb.scale_pos
  size := by
    rw [UnitTree.size, ← ha.size, ← hb.size, ScaledTerms.multiply, CompoundUnit.size_append]
    ring
  power x := by
    rw [UnitTree.dimension, Dimension.power_multiply, ← ha.power, ← hb.power, ScaledTerms.multiply,
      CompoundUnit.power_dimension_append]

theorem divide (ha : a.Means s) (hb : b.Means t) :
    ∃ c, a.divide b = .ok c ∧ c.Means (.quotient s t) := by
  refine ⟨⟨a.terms ++ b.terms.map fun t => { t with power := -t.power }, a.scale / b.scale⟩, ?_, ?_⟩
  · rw [ScaledTerms.divide, Checked.div_of_ne_zero hb.scale_pos.ne']
    rfl
  · refine ⟨ha.known.append (CompoundUnit.Known.mapPower hb.known (-·)),
      div_pos ha.scale_pos hb.scale_pos, ?_, fun x => ?_⟩
    · rw [UnitTree.size, ← ha.size, ← hb.size, CompoundUnit.size_append,
        CompoundUnit.size_negated hb.known, ← div_eq_mul_inv, div_mul_div_comm]
    · rw [UnitTree.dimension, Dimension.power_divide, ← ha.power, ← hb.power,
        CompoundUnit.power_dimension_append, CompoundUnit.power_dimension_negated, sub_eq_add_neg]

theorem pow (ha : a.Means s) (k : Int) : ∃ c, a.pow k = .ok c ∧ c.Means (.power s k) := by
  refine ⟨⟨a.terms.map fun t => { t with power := t.power * k }, a.scale ^ ((k : Rat) : ℝ)⟩, ?_, ?_⟩
  · rw [ScaledTerms.pow, Checked.powRat_of_pos ha.scale_pos]
    rfl
  · refine ⟨CompoundUnit.Known.mapPower ha.known (· * (k : Rat)), Real.rpow_pos_of_pos ha.scale_pos _, ?_,
      fun x => ?_⟩
    · rw [UnitTree.size, ← ha.size, ha.known.positive.size_scaled,
        ← Real.mul_rpow ha.scale_pos.le (CompoundUnit.Known.size_pos ha.known).le, Rat.cast_intCast,
        Real.rpow_intCast]
    · rw [UnitTree.dimension, Dimension.power_pow, ← ha.power, CompoundUnit.power_dimension_scaled]

end ScaledTerms.Means

/-! ## Reading -/

theorem exponent_of_whole {text : String} {k : Int} (h : (Decimal.ofText text).value = k) :
    Exponent.ofScalar (Scalar.ofDecimal (Decimal.ofText text) : ℝ) = .ok (k : Rat) := by
  have hsmall : ((k : Rat)).den ≤ Exponent.maxDenominator := by
    rw [Rat.den_intCast]
    decide
  rw [Scalar.ofDecimal_real, h, Exponent.ofScalar_ratCast, Exponent.snap, Exponent.limitDenominator,
    if_pos hsmall]

namespace UnitTree

/-- A whole exponent is written as an exponent with its value. -/
theorem WritesExponent.evaluates {k : Int} {tokens : List UnitToken} (h : WritesExponent k tokens) :
    ∃ e : ExponentExpression, e.Writes .alone tokens ∧ e.evaluate (R := ℝ) = .ok (k : Rat) := by
  induction h with
  | number h => exact ⟨_, .number, exponent_of_whole h⟩
  | @negative text k h =>
    have hvalue := exponent_of_whole h
    refine ⟨_, .negative, ?_⟩
    rw [Int.cast_neg]
    exact ExponentExpression.evaluate_negative hvalue
  | enclosed _ ih =>
    obtain ⟨e, he, hvalue⟩ := ih
    exact ⟨e, .enclosed (.alone he) rfl, hvalue⟩

/-- **What is written has a value, and the value means it**: induction over the derivation, one case for
each rule. -/
theorem Writes.evaluates {level : Level} {t : UnitTree} {tokens : List UnitToken}
    (h : t.Writes level tokens) : ∃ (s : UnitExpression) (a : ScaledTerms ℝ),
      s.Writes level tokens ∧ s.evaluate = .ok a ∧ a.Means t := by
  induction h with
  | @name text r h =>
    refine ⟨_, _, .name, ?_, .name h⟩
    rw [UnitExpression.evaluate, UnitReader.named, h]
  | @number text h => exact ⟨_, _, .number, rfl, .number h⟩
  | enclosed _ ih =>
    obtain ⟨s, a, hs, ha, hmeans⟩ := ih
    exact ⟨s, a, .enclosed hs, ha, hmeans⟩
  | atom _ ih =>
    obtain ⟨s, a, hs, ha, hmeans⟩ := ih
    exact ⟨s, a, .atom hs, ha, hmeans⟩
  -- the powers of a scale above zero exist
  | @raised t k tokens exponent mark _ hmark hexponent ih =>
    obtain ⟨s, a, hs, ha, hmeans⟩ := ih
    obtain ⟨e, he, hk⟩ := hexponent.evaluates
    obtain ⟨b, hpow, hb⟩ := hmeans.pow k
    exact ⟨_, b, hs.raised hmark he, (UnitExpression.evaluate_power ha hk).trans hpow, hb⟩
  | power _ ih =>
    obtain ⟨s, a, hs, ha, hmeans⟩ := ih
    exact ⟨s, a, .power hs, ha, hmeans⟩
  | times _ hmark _ ihs iht =>
    obtain ⟨s, a, hs, ha, hmeans⟩ := ihs
    obtain ⟨t, b, ht, hb, hmeans'⟩ := iht
    exact ⟨_, _, hs.times hmark ht, UnitExpression.evaluate_product ha hb, hmeans.multiply hmeans'⟩
  | beside _ _ ihs iht =>
    obtain ⟨s, a, hs, ha, hmeans⟩ := ihs
    obtain ⟨t, b, ht, hb, hmeans'⟩ := iht
    exact ⟨_, _, hs.beside ht, UnitExpression.evaluate_product ha hb, hmeans.multiply hmeans'⟩
  | product _ ih =>
    obtain ⟨s, a, hs, ha, hmeans⟩ := ih
    exact ⟨s, a, .product hs, ha, hmeans⟩
  -- no scale is zero, so the quotient exists
  | divided _ _ ihs iht =>
    obtain ⟨s, a, hs, ha, hmeans⟩ := ihs
    obtain ⟨t, b, ht, hb, hmeans'⟩ := iht
    obtain ⟨c, hdivide, hc⟩ := hmeans.divide hmeans'
    exact ⟨_, c, hs.divided ht, (UnitExpression.evaluate_quotient ha hb).trans hdivide, hc⟩

end UnitTree

/-- All tokens are taken, and they mean the expression that they write. -/
theorem UnitReader.all_of_writes (unit : String) {t : UnitTree} {tokens : List UnitToken}
    (h : t.Writes .quotient tokens) : ∃ a : ScaledTerms ℝ, a.Means t ∧ all unit tokens = .ok a := by
  obtain ⟨s, a, hs, ha, hmeans⟩ := h.evaluates
  exact ⟨a, hmeans, (all_eq_evaluate unit hs).trans ha⟩

/-- **A unit text means what the grammar says.** Whatever tokens write an expression, and however they
are spelled, the text is read as a unit whose size times the number that comes with it is the size of
the expression, and its dimension is that of the expression. -/
theorem CompoundUnit.ofText_written {t : UnitTree} {tokens : List UnitToken} {body back : List Char}
    {text : String} (hwrites : t.Writes .quotient tokens) (hspelled : UnitToken.Spelled tokens body)
    (hback : ∀ c ∈ back, Text.isBlank c = true) (htext : text.toList = body ++ back) :
    ∃ u scale size, CompoundUnit.ofText text = .ok (u, scale) ∧ u.factor = .ok size ∧
      scale * size = t.size ∧ u.dimension = t.dimension := by
  obtain ⟨token, rest, rfl, -⟩ := hwrites.opens
  obtain ⟨hsome, hscan⟩ := UnitToken.ofText_spelled (R := ℝ) hspelled hback htext
  obtain ⟨a, hmeans, hall⟩ := UnitReader.all_of_writes (Text.trimText text) hwrites
  obtain ⟨u, scale, hcanonical, hspec⟩ := canonicalize_spec hmeans.known
  refine ⟨u, a.scale * scale, u.size, ?_, factor_eq (hspec.known hmeans.known), ?_, ?_⟩
  · rw [ofText]
    simp only [hsome, Bool.false_eq_true, if_false, hscan, hall, hcanonical, bind, Except.bind, pure,
      Except.pure]
  · rw [mul_assoc, hspec.size, hmeans.size]
  · refine Dimension.ext_power u.normal_dimension t.normal_dimension fun x => ?_
    rw [hspec.dimension, hmeans.power]

/-- Six kilometres over the product of an hour and a power of a label's unit. -/
def sixPerHour : UnitTree :=
  let hour : BaseUnit := ⟨"hour", ["h"], ["hours"], [(.time, 1)], .exact 3600, false⟩
  let metre : BaseUnit :=
    ⟨"meter", ["m", "metre"], ["meters", "metres"], [(.length, 1)], .exact 1, true⟩
  let hours : UnitTree := .name "h" ⟨.entry (.base hour), none, "h"⟩ (by decide +kernel)
  let kilometres : UnitTree :=
    .name "km" ⟨.entry (.withPrefix ⟨"kilo", "k", 3⟩ metre), none, "km"⟩ (by decide +kernel)
  let crate : UnitTree := .name "'crate" ⟨.label "crate", none, "'crate"⟩ (by decide +kernel)
  .quotient (.product (.number "6" (by decide +kernel)) kilometres)
    (.product hours (.power crate (-2)))

theorem sixPerHour_read : ∃ (u : CompoundUnit ℝ) (scale size : ℝ),
    CompoundUnit.ofText "6km per h 'crate^-2" = .ok (u, scale) ∧ u.factor = .ok size ∧
      scale * size = 5 / 3 ∧ u.dimension = sixPerHour.dimension := by
  have hwrites : sixPerHour.Writes .quotient [.number "6", .name "km", .mark "/", .name "h",
      .name "'crate", .mark "^", .mark "-", .number "2"] :=
    .divided (.product (.beside (.power (.atom .number)) (.atom .name)))
      (.beside (.power (.atom .name)) (.raised .name (by decide) (.negative (by decide +kernel))))
  -- the tokens are spelled one after the other, with the blanks in front of each
  have hnone : ∀ c ∈ ([] : List Char), Text.isBlank c = true := List.all_eq_true.mp (by decide)
  have hspace : ∀ c ∈ [' '], Text.isBlank c = true := List.all_eq_true.mp (by decide)
  have hdigit : ∀ d, Text.isDigit d = true → UnitToken.IsNumber [d] := fun d hd =>
    .plain (.whole (fun c hc => List.mem_singleton.mp hc ▸ hd) (List.cons_ne_nil _ _))
  have hkm : UnitToken.IsName ['k', 'm'] := .plain (by decide) (List.all_eq_true.mp (by decide))
  have hh : UnitToken.IsName ['h'] := .plain (by decide) (List.all_eq_true.mp (by decide))
  have hcrate : UnitToken.IsName ['\'', 'c', 'r', 'a', 't', 'e'] :=
    .label (by decide) (List.all_eq_true.mp (by decide))
  have hspelled : ∃ body, UnitToken.Spelled [.number "6", .name "km", .mark "/", .name "h",
      .name "'crate", .mark "^", .mark "-", .number "2"] body ∧
      "6km per h 'crate^-2".toList = body ++ [] := by
    refine ⟨_, .cons hnone (.number (hdigit '6' (by decide)) ?_) <|
      .cons hnone (.name hkm (by decide) (UnitToken.stops_cons (by decide))) <|
      .cons hspace (.per (UnitToken.stops_cons (by decide))) <|
      .cons hspace (.name hh (by decide) (UnitToken.stops_cons (by decide))) <|
      .cons hspace (.name hcrate (by decide) (UnitToken.stops_cons (by decide))) <|
      .cons hnone (.mark (by decide)) <| .cons hnone (.mark (by decide)) <|
      .cons hnone (.number (hdigit '2' (by decide)) UnitToken.endsNumber_nil) .nil, by decide⟩
    exact UnitToken.endsNumber_cons (c := 'k') (by decide) (by decide) (by decide)
  obtain ⟨body, hbody, htext⟩ := hspelled
  obtain ⟨u, scale, size, hread, hsize, hproduct, hdimension⟩ :=
    CompoundUnit.ofText_written hwrites hbody hnone htext
  refine ⟨u, scale, size, hread, hsize, ?_, hdimension⟩
  have hsix : (Decimal.ofText "6").value = 6 := by decide +kernel
  rw [hproduct]
  norm_num [sixPerHour, UnitTree.size, ResolvedName.scale, UnitMeaning.toUnit, VocabularyEntry.toUnit,
    Size.toScalar, hsix]

end Ballpark
