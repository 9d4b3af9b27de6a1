import Ballpark.Proofs.UnitText
import Ballpark.Proofs.Bindings
import Ballpark.Session.Evaluate

/-!
# What evaluation comes to

A fault of an evaluation is one of the calculator's own, or one of the arithmetic, or one of three
others: a logarithm of nothing, an exponent that is no number, and an evaluation or sampler that goes on
too long (`Fault.FromEvaluation`). And a quantity that evaluation comes to is in a unit that arithmetic
has made of the units that were read. Both are read off the definitions together, for everything that is
computed without drawing: a class of units that arithmetic does not leave (`UnitClass`) is a class that
no quantity leaves.
-/

namespace Ballpark

/-- The faults that an evaluation can end in. -/
def Fault.FromEvaluation {R : Type} : Fault R → Prop
  | .value cause => cause = .mathDomain ∨ cause = .undefinedRatio
  | .missingColumns _ | .wrongSort => False
  | _ => True

/-- The faults of computations that read some texts as units and no others. -/
def Fault.From {R : Type} [Scalar R] (texts : List String) : Fault R → Prop
  | .program _ => False
  | .unitText unit issue => ∃ text ∈ texts, CompoundUnit.ofText text = .error (.unitText unit issue : Fault R)
  | .value cause => cause = .mathDomain ∨ cause = .undefinedRatio
  | .missingColumns _ | .wrongSort => False
  | _ => True

variable {R α : Type} [Scalar R]

theorem Fault.From.fromEvaluation {texts : List String} {f : Fault R} (h : f.From texts) :
    f.FromEvaluation := by
  cases f with
  | program => exact h.elim
  | value | missingColumns | wrongSort => exact h
  | _ => exact True.intro

theorem Fault.From.mono {texts others : List String} {f : Fault R} (h : f.From texts)
    (hothers : texts ⊆ others) : f.From others := by
  cases f with
  | unitText =>
    obtain ⟨text, htext, hread⟩ := h
    exact ⟨text, hothers htext, hread⟩
  | _ => exact h

/-- A fault of syntax is the refusal of one of the texts. -/
theorem Fault.From.refused {texts : List String} {f : Fault R} (h : f.From texts)
    (hf : f.kind = .parse) : ∃ text ∈ texts, CompoundUnit.ofText text = .error f := by
  cases f with
  | program => exact h.elim
  | unitText => exact h
  | arithmetic cause =>
    simp only [Fault.kind] at hf
    split at hf
    · cases hf
    · cases hf
  | _ => cases hf

/-- A computation that ends in a result or in a fault of evaluation, reading some texts at most. -/
abbrev Proper (texts : List String) (e : Except (Fault R) α) : Prop :=
  Ends e (fun _ => True) (Fault.From texts)

variable {texts : List String}

theorem Ends.fromEvaluation {e : Except (Fault R) α} {P : α → Prop} (h : Ends e P (Fault.From texts)) :
    Ends e P Fault.FromEvaluation :=
  h.mono (fun _ => id) fun _ => Fault.From.fromEvaluation

theorem Proper.of_arithmetic {e : Except (Fault R) α}
    (h : Ends e (fun _ => True) Checked.ArithmeticOnly) : Proper texts e :=
  h.mono (fun _ => id) fun _ ⟨_, hf⟩ => hf ▸ True.intro

theorem Exponent.ofScalar_proper (x : R) : Proper texts (ofScalar x) :=
  (ofScalar_ends x).mono (fun _ => id) fun _ hf => by
    cases hf with
    | unknownUnit | arithmetic => exact True.intro
    | undefinedRatio => exact .inr rfl

/-! ## Units -/

namespace CompoundUnit

theorem factor_ends (u : CompoundUnit R) :
    Ends u.factor (fun _ => True) Checked.ArithmeticOnly :=
  Ends.foldlM (fun _ _ => (Checked.powRat_ends _ _).bind fun _ _ => .ok True.intro) _ _

theorem Merging.add_ends (m : Merging R) (t : UnitTerm R) :
    Ends (m.add t) (fun _ => True) Checked.ArithmeticOnly := by
  rw [Merging.add]
  split
  · exact .ok True.intro
  split
  · exact (Checked.powRat_ends _ _).bind fun _ _ => .ok True.intro
  split
  · exact .ok True.intro
  · refine (Checked.div_ends _ _).bind fun _ _ => ?_
    exact (Checked.powRat_ends _ _).bind fun _ _ => .ok True.intro

theorem Merging.finish_ends (m : Merging R) :
    Ends m.finish (fun _ => True) Checked.ArithmeticOnly := by
  rw [Merging.finish]
  split
  · exact (factor_ends _).bind fun _ _ => .ok True.intro
  · exact .ok True.intro

theorem canonicalize_ends (ts : List (UnitTerm R)) :
    Ends (canonicalize ts) (fun _ => True) Checked.ArithmeticOnly :=
  (Ends.foldlM Merging.add_ends _ _).bind fun m _ => m.finish_ends

theorem conversionFactor_proper (u v : CompoundUnit R) : Proper texts (u.conversionFactor v) := by
  rw [conversionFactor]
  split
  · exact .error True.intro
  · refine (Proper.of_arithmetic u.factor_ends).bind fun _ _ => ?_
    refine (Proper.of_arithmetic v.factor_ends).bind fun _ _ => ?_
    exact Proper.of_arithmetic (Checked.div_ends _ _)

theorem pow_proper (u : CompoundUnit R) (k : R) : Proper texts (u.pow k) := by
  rw [pow]
  split
  · exact .ok True.intro
  split
  · exact .error True.intro
  · refine (Exponent.ofScalar_proper k).bind fun _ _ => ?_
    exact (Proper.of_arithmetic (canonicalize_ends _)).bind fun _ _ => .ok True.intro

theorem ofText_ends (text : String) :
    Ends (ofText text : Except (Fault R) (CompoundUnit R × R)) (fun _ => True) ReadingFault := by
  simp only [ofText]
  generalize Text.trimText text = unit
  split
  · exact .ok True.intro
  · refine ((UnitToken.ofText_ends unit).mono (fun _ => id) ?_).bind fun tokens _ => ?_
    · rintro _ ⟨unit, issue, rfl⟩
      exact .unitText unit issue
    refine (UnitReader.all_ends unit tokens).bind fun read _ => ?_
    exact (canonicalize_ends _).meaning_of_arithmetic.reading_of_meaning.bind fun _ _ => .ok True.intro

theorem ofText_proper {text : String} (htext : text ∈ texts) :
    Proper texts (ofText text : Except (Fault R) (CompoundUnit R × R)) := by
  have hends := ofText_ends (R := R) text
  rcases hread : (ofText text : Except (Fault R) _) with f | r
  · rw [hread] at hends
    have hf := hends.of_error rfl
    refine .error ?_
    cases hf with
    | unitText unit issue => exact ⟨text, htext, hread⟩
    | unknownUnit | arithmetic | exhausted => exact True.intro
    | undefinedRatio => exact .inr rfl
  · exact .ok True.intro

end CompoundUnit

/-! ## Classes of units -/

/-- A class of units that arithmetic and reading do not leave. -/
structure UnitClass (R : Type) [Scalar R] where
  Mem : CompoundUnit R → Prop
  one : Mem .one
  radian : Mem MathFunction.radian
  multiply : ∀ {u v w scale}, Mem u → Mem v → u.multiply v = .ok (w, scale) → Mem w
  divide : ∀ {u v w scale}, Mem u → Mem v → u.divide v = .ok (w, scale) → Mem w
  pow : ∀ {u w k}, Mem u → u.pow k = .ok w → Mem w
  toBase : ∀ {u w scale}, Mem u → u.toBase = .ok (w, scale) → Mem w
  ofText : ∀ {text u scale}, CompoundUnit.ofText text = .ok (u, scale) → Mem u
  /-- a text may mention units that a program has defined -/
  unitQuantity : ∀ {units text q}, units.All (fun q : Quantity R => Mem q.unit) →
    Session.unitQuantity units text = .ok q → Mem q.unit

namespace UnitClass

/-- All units. -/
def all (R : Type) [Scalar R] : UnitClass R where
  Mem _ := True
  one := True.intro
  radian := True.intro
  multiply _ _ _ := True.intro
  divide _ _ _ := True.intro
  pow _ _ := True.intro
  toBase _ _ := True.intro
  ofText _ := True.intro
  unitQuantity _ _ := True.intro

variable (C : UnitClass R)

/-- A quantity in a unit of the class. -/
def Val (q : Quantity R) : Prop :=
  C.Mem q.unit

/-- A computation that ends in a quantity of the class, or in a fault of evaluation, reading some texts
at most. -/
abbrev Gives (texts : List String) (e : Except (Fault R) (Quantity R)) : Prop :=
  Ends e C.Val (Fault.From texts)

variable {C} {a b q : Quantity R} {units : Bindings (Quantity R)}

/-! ## Quantities -/

theorem commonFactor_proper (action : String) (a b : Quantity R) :
    Proper texts (Quantity.commonFactor action a b) := by
  rw [Quantity.commonFactor]
  split
  · exact CompoundUnit.conversionFactor_proper _ _
  · exact .error True.intro

theorem multiply_gives (ha : C.Val a) (hb : C.Val b) : C.Gives texts (a.multiply b) := by
  have hunit : Ends (a.unit.multiply b.unit) (fun r => C.Mem r.1) (Fault.From texts) :=
    (Proper.of_arithmetic (CompoundUnit.canonicalize_ends _)).strengthen fun r hr => C.multiply ha hb hr
  exact hunit.bind fun _ hr => .ok hr

theorem divide_gives (ha : C.Val a) (hb : C.Val b) : C.Gives texts (a.divide b) := by
  have hunit : Ends (a.unit.divide b.unit) (fun r => C.Mem r.1) (Fault.From texts) :=
    (Proper.of_arithmetic (CompoundUnit.canonicalize_ends _)).strengthen fun r hr => C.divide ha hb hr
  exact hunit.bind fun _ hr => .ok hr

theorem unit_pow_ends {u : CompoundUnit R} (hu : C.Mem u) (k : R) :
    Ends (u.pow k) C.Mem (Fault.From texts) :=
  (CompoundUnit.pow_proper u k).strengthen fun _ hw => C.pow hu hw

theorem pow_gives (hq : C.Val q) (k : R) : C.Gives texts (q.pow k) :=
  (unit_pow_ends hq k).bind fun _ hw => .ok hw

theorem convert_gives {u : CompoundUnit R} (hu : C.Mem u) : C.Gives texts (q.convert u) :=
  (CompoundUnit.conversionFactor_proper _ _).bind fun _ _ => .ok hu

theorem toBase_gives (hq : C.Val q) : C.Gives texts q.toBase := by
  have hproper : Proper texts q.unit.toBase :=
    (Proper.of_arithmetic (CompoundUnit.factor_ends _)).bind fun _ _ => .ok True.intro
  have hunit : Ends q.unit.toBase (fun r => C.Mem r.1) (Fault.From texts) :=
    hproper.strengthen fun r hr => C.toBase hq hr
  exact hunit.bind fun _ hr => .ok hr

theorem unit_ofText_ends {text : String} (htext : text ∈ texts) :
    Ends (CompoundUnit.ofText text : Except (Fault R) _) (fun r => C.Mem r.1) (Fault.From texts) :=
  (CompoundUnit.ofText_proper htext).strengthen fun _ hr => C.ofText hr

theorem ofText_gives (v : Value R) {text : String} (htext : text ∈ texts) :
    C.Gives texts (Quantity.ofText v text) :=
  (unit_ofText_ends htext).bind fun _ hr => .ok hr

/-! ## Units in a session -/

theorem unitQuantity_proper (units : Bindings (Quantity R)) {text : String} (htext : text ∈ texts) :
    Proper texts (Session.unitQuantity units text) := by
  refine (CompoundUnit.ofText_proper htext).bind fun read _ => ?_
  refine Ends.foldlM (fun q t => ?_) _ _
  rw [Session.substitute]
  split
  · exact .ok True.intro
  · refine (Proper.of_arithmetic (Checked.ofRat_ends _)).bind fun k _ => ?_
    refine (pow_gives (C := .all R) True.intro k).bind fun _ _ => ?_
    exact multiply_gives (C := .all R) True.intro True.intro

section

variable (hunits : units.All C.Val)
include hunits

theorem unitQuantity_gives {text : String} (htext : text ∈ texts) :
    C.Gives texts (Session.unitQuantity units text) :=
  (unitQuantity_proper units htext).strengthen fun _ hq => C.unitQuantity hunits hq

theorem inUnit_gives (hq : C.Val q) (unit : Option String) :
    C.Gives (Session.written? unit).toList (Session.inUnit units q unit) := by
  rw [Session.inUnit]
  split
  · exact .ok hq
  · rename_i text htext
    rw [htext]
    exact (unitQuantity_gives hunits (List.mem_singleton_self text)).bind fun _ hr => multiply_gives hq hr

theorem literal_gives (x : R) (unit : Option String) :
    C.Gives (Session.written? unit).toList (Session.literal units x unit) := by
  rw [Session.literal]
  split
  · exact .ok C.one
  · rename_i text htext
    rw [htext]
    exact (unitQuantity_gives hunits (List.mem_singleton_self text)).bind fun _ hr => .ok hr

theorem convertTo_gives (hq : C.Val q) (target : String) :
    C.Gives [Text.trimText target] (Session.convertTo units q target) := by
  rw [Session.convertTo]
  generalize Text.trimText target = target
  have hread : Ends (CompoundUnit.ofText target : Except (Fault R) _) (fun r => C.Mem r.1)
      (Fault.From [target]) := unit_ofText_ends (List.mem_singleton_self target)
  split
  · exact toBase_gives hq
  split
  · rename_i definition hdefinition
    have hunit : C.Val definition := hunits _ _ hdefinition
    refine (convert_gives hunit).bind fun p hp => ?_
    refine (divide_gives hp hunit).bind fun ratio _ => ?_
    exact hread.bind fun _ hr => .ok hr
  · exact hread.bind fun _ hr => convert_gives hr

end

theorem unitOf_gives (name : String) (count : R) (hq : C.Val q) :
    C.Gives texts (Session.unitOf name count q) := by
  rw [Session.unitOf]
  split
  · exact .error True.intro
  split
  · exact .ok hq
  · exact divide_gives hq C.one

/-! ## Operators -/

theorem binary_gives (op : BinaryOperator) (ha : C.Val a) (hb : C.Val b) :
    C.Gives texts (Session.binary op a b) := by
  cases op with
  | add | subtract => exact (commonFactor_proper _ _ _).bind fun _ _ => .ok ha
  | compare => exact (commonFactor_proper _ _ _).bind fun _ _ => .ok C.one
  | multiply => exact multiply_gives ha hb
  | divide => exact divide_gives ha hb
  | power =>
    rw [Session.binary]
    split
    · exact .error True.intro
    split
    · exact .error True.intro
    · exact pow_gives ha _
  | other => exact .error True.intro

theorem unary_gives (op : UnaryOperator) (hq : C.Val q) : C.Gives texts (Session.unary op q) := by
  cases op with
  | negate | plus => exact .ok hq
  | other => exact .error True.intro

theorem choose_gives (s : Sample R) (ha : C.Val a) : C.Gives texts (Session.choose s a b) := by
  rw [Session.choose]
  split
  · exact .error True.intro
  · exact (convert_gives ha).bind fun _ _ => .ok ha

/-! ## Bounds -/

/-- Bounds in a unit of the class. -/
abbrev GivesBounds (C : UnitClass R) (texts : List String) (e : Except (Fault R) (Session.Bounds R)) : Prop :=
  Ends e (fun b => C.Mem b.unit) (Fault.From texts)

theorem boundIn_proper (u : CompoundUnit R) (scale : R) (q : Quantity R) :
    Proper texts (Session.boundIn u scale q) := by
  rw [Session.boundIn]
  split
  · exact (convert_gives (C := .all R) True.intro).bind fun _ _ => .ok True.intro
  · exact .ok True.intro

theorem trailingBounds_give (hunits : units.All C.Val) (a b : Quantity R) (unit : String) :
    C.GivesBounds [unit] (Session.trailingBounds units a b unit) := by
  refine (unitQuantity_gives hunits (List.mem_singleton_self unit)).bind fun q hq => ?_
  refine (boundIn_proper _ _ _).bind fun _ _ => ?_
  exact (boundIn_proper _ _ _).bind fun _ _ => .ok hq

theorem strictBounds_give (hunits : units.All C.Val) (right : Node) (hb : C.Val b)
    (unit : Option String) :
    C.GivesBounds (Session.written? unit).toList (Session.strictBounds units right a b unit) := by
  rw [Session.strictBounds]
  split
  · rename_i text htext
    rw [htext]
    exact trailingBounds_give hunits _ _ text
  · rw [Session.ownBounds]
    split
    · split
      · exact .error True.intro
      split
      · exact .error True.intro
      · exact (convert_gives hb).bind fun _ _ => .ok hb
    split
    · exact .ok hb
    · exact .ok C.one

theorem looseBounds_give (hunits : units.All C.Val) (ha : C.Val a) (hb : C.Val b)
    (preferSecond : Bool) (unit : Option String) :
    C.GivesBounds (Session.written? unit).toList (Session.looseBounds units a b preferSecond unit) := by
  rw [Session.looseBounds]
  split
  · rename_i text htext
    rw [htext]
    exact trailingBounds_give hunits _ _ text
  · refine (boundIn_proper _ _ _).bind fun _ _ => (boundIn_proper _ _ _).bind fun _ _ => .ok ?_
    cases preferSecond with
    | true =>
      show C.Mem (if b.hasUnit then b.unit else a.unit)
      split
      · exact hb
      · exact ha
    | false =>
      show C.Mem (if a.hasUnit then a.unit else b.unit)
      split
      · exact ha
      · exact hb

theorem literalBounds_proper (text : String) :
    Proper texts (Session.literalBounds text : Except (Fault R) (R × R)) := by
  simp only [Session.literalBounds]
  split
  · exact .error True.intro
  · refine Ends.bind (P := fun _ => True) ?_ fun _ _ => .ok True.intro
    exact (Proper.of_arithmetic (Checked.ofInt_ends _)).bind fun _ _ =>
      (Proper.of_arithmetic (Checked.pow_ends _ _)).bind fun _ _ => .ok True.intro

/-! ## Builtin functions of quantities -/

theorem transform_proper (scale : Score.Scale) (v : Value R) : Proper texts (scale.transform v) := by
  rw [Score.Scale.transform.eq_def]
  split
  · exact .ok True.intro
  · split
    · exact .error True.intro
    · exact .ok True.intro

theorem components_proper (scale : Score.Scale) (a b : Quantity R) :
    Proper texts (Score.components scale a b) := by
  rw [Score.components]
  split
  · exact .error True.intro
  · refine (convert_gives (C := .all R) True.intro).bind fun _ _ => ?_
    refine (transform_proper scale _).bind fun _ _ => ?_
    exact (transform_proper scale _).bind fun _ _ => .ok True.intro

theorem score_gives (scale : Score.Scale) (part : Score.Part) (ha : C.Val a) (b : Quantity R) :
    C.Gives texts (Score.evaluate scale part a b) := by
  refine (components_proper scale a b).bind fun c _ => ?_
  cases scale with
  | plain =>
    cases part with
    | score | reliability | resolution => exact .ok ha
  | _ =>
    cases part with
    | score | reliability | resolution => exact .ok C.one

theorem quantile_gives (hq : C.Val q) (p : Quantity R) : C.Gives texts (Summary.quantile q p) := by
  have hread : ∀ share : R, Proper texts (q.percentile share) := by
    intro share
    rw [Quantity.percentile]
    split
    · exact .error True.intro
    split
    · exact .ok True.intro
    · exact .ok True.intro
  simp only [Summary.quantile]
  split
  · exact (hread _).bind fun _ _ => .ok hq
  · exact .error True.intro

theorem requirePlain_proper (function : String) (q : Quantity R) :
    Proper texts (MathFunction.requirePlain function q) := by
  rw [MathFunction.requirePlain]
  split
  · exact .error True.intro
  · exact .ok True.intro

theorem requireSame_proper (function : String) (a b : Quantity R) :
    Proper texts (MathFunction.requireSame function a b) := by
  rw [MathFunction.requireSame]
  split
  · exact .ok True.intro
  · exact .error True.intro

theorem inRadians_proper (function : String) (q : Quantity R) :
    Proper texts (MathFunction.inRadians function q) := by
  rw [MathFunction.inRadians]
  split
  · exact .ok True.intro
  split
  · exact (convert_gives (C := .all R) True.intro).mono (fun _ _ => True.intro) fun _ => id
  · exact .error True.intro

theorem inUnitOfFirst_gives (function : String) (f : R → R → R) (ha : C.Val a) (b : Quantity R) :
    C.Gives texts (MathFunction.inUnitOfFirst function f a b) := by
  refine (requireSame_proper function a b).bind fun _ _ => ?_
  exact (convert_gives ha).bind fun _ _ => .ok ha

theorem raise_gives (ha : C.Val a) (b : Quantity R) : C.Gives texts (MathFunction.raise a b) := by
  refine (requirePlain_proper "pow" b).bind fun _ _ => ?_
  split
  · exact pow_gives ha _
  · exact .ok C.one

theorem between_gives (hq : C.Val q) (low high : Quantity R) :
    C.Gives texts (MathFunction.between q low high) := by
  refine (requireSame_proper "clamp" q low).bind fun _ _ => ?_
  refine (requireSame_proper "clamp" q high).bind fun _ _ => ?_
  refine (convert_gives hq).bind fun _ _ => ?_
  exact (convert_gives hq).bind fun _ _ => .ok hq

/-- An operation that stays in the class. -/
def Stays (C : UnitClass R) (texts : List String) : Operation R → Prop
  | .unary f => ∀ a, C.Val a → C.Gives texts (f a)
  | .binary f => ∀ a b, C.Val a → C.Val b → C.Gives texts (f a b)
  | .ternary f => ∀ a b c, C.Val a → C.Val b → C.Val c → C.Gives texts (f a b c)

theorem Stays.call {f : Operation R} (h : C.Stays texts f) {arguments : List (Quantity R)}
    (harguments : ∀ q ∈ arguments, C.Val q) {e : Except (Fault R) (Quantity R)}
    (he : f.call? arguments = some e) : C.Gives texts e := by
  rw [Operation.call?.eq_def] at he
  split at he
  · cases he
    exact h _ (harguments _ (by simp))
  · cases he
    exact h _ _ (harguments _ (by simp)) (harguments _ (by simp))
  · cases he
    exact h _ _ _ (harguments _ (by simp)) (harguments _ (by simp)) (harguments _ (by simp))
  · cases he

/-- Every function of quantities stays in the class. -/
theorem operation_stays (f : MathFunction) : C.Stays texts (f.operation : Operation R) := by
  cases f with
  | keepingUnit | fixedQuantile | mean | deviation => exact fun _ ha => .ok ha
  | sign => exact fun _ _ => .ok C.one
  | ofPlain => exact fun q _ => (requirePlain_proper _ q).bind fun _ _ => .ok C.one
  | toAngle => exact fun q _ => (requirePlain_proper _ q).bind fun _ _ => .ok C.radian
  | ofAngle => exact fun q _ => (inRadians_proper _ q).bind fun _ _ => .ok C.one
  | squareRoot => exact fun _ ha => pow_gives ha _
  | cubeRoot => exact fun _ ha => (unit_pow_ends ha _).bind fun _ hw => .ok hw
  | power => exact fun _ b ha _ => raise_gives ha b
  | minimum | maximum | hypotenuse => exact fun _ b ha _ => inUnitOfFirst_gives _ _ ha b
  | pointAngle => exact fun _ b ha _ => (inUnitOfFirst_gives _ _ ha b).bind fun _ _ => .ok C.radian
  | clamp => exact fun _ b c ha _ _ => between_gives ha b c
  | quantile => exact fun _ b ha _ => quantile_gives ha b
  | score scale part => exact fun _ b ha _ => score_gives scale part ha b

end UnitClass

end Ballpark
