import Ballpark.Proofs.Bindings
import Ballpark.Proofs.Outcome
import Ballpark.Proofs.Sample
import Ballpark.Session.Evaluate

/-!
# Quantities alike

Two quantities are alike if they have one unit and both are exact or both uncertain, whatever their
particles are (`Quantity.Alike`). An operation that succeeds on operands that are alike gives results that
are alike (`Operation.Respects`): units are made from units and from texts, and a result is exact where the
operands are. A power is the exception, for its unit depends on the number that is the exponent, so the
exponents must be equal there.
-/

namespace Ballpark

/-! ## Pairs of results -/

/-- What two computations give, if both give something, is related. -/
def Paired {ε α β : Type} (P : α → β → Prop) (e : Except ε α) (e' : Except ε β) : Prop :=
  ∀ a b, e = .ok a → e' = .ok b → P a b

namespace Paired

variable {ε α β γ δ : Type} {P : α → β → Prop} {Q : γ → δ → Prop} {e f : Except ε α} {e' f' : Except ε β}

theorem ok {a : α} {b : β} (h : P a b) : Paired P (.ok a : Except ε α) (.ok b) := by
  intro a' b' ha hb
  cases ha
  cases hb
  exact h

theorem error (fault : ε) : Paired P (.error fault) e' :=
  fun _ _ h => nomatch h

theorem any : Paired (fun _ _ => True) e e' :=
  fun _ _ _ _ => trivial

/-- A computation gives one result. -/
theorem same (e : Except ε α) : Paired Eq e e :=
  fun _ _ ha hb => Except.ok.inj (ha.symm.trans hb)

theorem bind {g : α → Except ε γ} {g' : β → Except ε δ} (h : Paired P e e')
    (hg : ∀ a b, P a b → Paired Q (g a) (g' b)) : Paired Q (e >>= g) (e' >>= g') := by
  intro c d hc hd
  rcases e with fault | a
  · cases hc
  rcases e' with fault | b
  · cases hd
  exact hg a b (h a b rfl rfl) c d hc hd

theorem bind_same {g : α → Except ε γ} {g' : α → Except ε δ} (e : Except ε α)
    (hg : ∀ a, Paired Q (g a) (g' a)) : Paired Q (e >>= g) (e >>= g') :=
  (same e).bind fun a _ ha => ha ▸ hg a

theorem ite {c : Prop} [Decidable c] (h : Paired P e e') (h' : Paired P f f') :
    Paired P (if c then e else f) (if c then e' else f') := by
  split
  · exact h
  · exact h'

/-- A loop over a list, step by step. -/
theorem foldlM {S : α → β → Prop} {g : α → γ → Except ε α} {g' : β → γ → Except ε β}
    (hg : ∀ a b c, S a b → Paired S (g a c) (g' b c)) (cs : List γ) {a : α} {b : β} (h : S a b) :
    Paired S (cs.foldlM g a) (cs.foldlM g' b) := by
  induction cs generalizing a b with
  | nil => exact ok h
  | cons c rest ih =>
    rw [List.foldlM_cons, List.foldlM_cons]
    exact (hg a b c h).bind fun _ _ => ih

end Paired

/-! ## Quantities -/

theorem Value.isScalar_map_congr {R : Type} {v w : Value R} (h : v.isScalar = w.isScalar) (f g : R → R) :
    (v.map f).isScalar = (w.map g).isScalar :=
  (isScalar_map f v).trans (h.trans (isScalar_map g w).symm)

/-- Two quantities in one unit that are both exact or both uncertain. -/
structure Quantity.Alike {R : Type} (a b : Quantity R) : Prop where
  unit : a.unit = b.unit
  isScalar : a.isScalar = b.isScalar

variable {R : Type}

namespace Quantity.Alike

variable {a b c a' b' c' : Quantity R} {u u' : CompoundUnit R}

theorem refl (a : Quantity R) : a.Alike a :=
  ⟨rfl, rfl⟩

theorem hasUnit (h : a.Alike a') : a.hasUnit = a'.hasUnit := by
  rw [Quantity.hasUnit, Quantity.hasUnit, h.unit]

theorem map (h : a.Alike a') (hu : u = u') (f f' : R → R) :
    Alike ⟨a.value.map f, u⟩ ⟨a'.value.map f', u'⟩ :=
  ⟨hu, Value.isScalar_map_congr h.isScalar f f'⟩

theorem zipWith (ha : a.Alike a') (hb : b.Alike b') (hu : u = u') (f f' : R → R → R) :
    Alike ⟨a.value.zipWith f b.value, u⟩ ⟨a'.value.zipWith f' b'.value, u'⟩ := by
  refine ⟨hu, (Value.isScalar_zipWith _ _ _).trans (Eq.trans ?_ (Value.isScalar_zipWith _ _ _).symm)⟩
  exact congrArg₂ _ ha.isScalar hb.isScalar

theorem zipWith3 (ha : a.Alike a') (hb : b.Alike b') (hc : c.Alike c') (hu : u = u')
    (f f' : R → R → R → R) :
    Alike ⟨a.value.zipWith3 f b.value c.value, u⟩ ⟨a'.value.zipWith3 f' b'.value c'.value, u'⟩ := by
  refine ⟨hu, (Value.isScalar_zipWith3 _ _ _ _).trans
    (Eq.trans ?_ (Value.isScalar_zipWith3 _ _ _ _).symm)⟩
  exact congrArg₂ _ (congrArg₂ _ ha.isScalar hb.isScalar) hc.isScalar

/-! ## Arithmetic -/

variable [Scalar R]

theorem add (ha : a.Alike a') (hb : b.Alike b') : Paired Alike (a.add b) (a'.add b') :=
  Paired.any.bind fun _ _ _ => .ok (ha.zipWith hb ha.unit _ _)

theorem subtract (ha : a.Alike a') (hb : b.Alike b') : Paired Alike (a.subtract b) (a'.subtract b') :=
  Paired.any.bind fun _ _ _ => .ok (ha.zipWith hb ha.unit _ _)

theorem compare (op : Comparison) (ha : a.Alike a') (hb : b.Alike b') :
    Paired Alike (Quantity.compare op a b) (Quantity.compare op a' b') :=
  Paired.any.bind fun _ _ _ => .ok (ha.zipWith hb rfl _ _)

theorem multiply (ha : a.Alike a') (hb : b.Alike b') : Paired Alike (a.multiply b) (a'.multiply b') := by
  rw [Quantity.multiply, Quantity.multiply, ← ha.unit, ← hb.unit]
  exact .bind_same _ fun _ => .ok (ha.zipWith hb rfl _ _)

theorem divide (ha : a.Alike a') (hb : b.Alike b') : Paired Alike (a.divide b) (a'.divide b') := by
  rw [Quantity.divide, Quantity.divide, ← ha.unit, ← hb.unit]
  exact .bind_same _ fun _ => .ok (ha.zipWith hb rfl _ _)

/-- Powers with one exponent. -/
theorem pow (ha : a.Alike a') (k : R) : Paired Alike (a.pow k) (a'.pow k) := by
  rw [Quantity.pow, Quantity.pow, ← ha.unit]
  exact .bind_same _ fun _ => .ok (ha.map rfl _ _)

theorem negate (ha : a.Alike a') : a.negate.Alike a'.negate :=
  ha.map ha.unit _ _

theorem convert (ha : a.Alike a') (hu : u = u') : Paired Alike (a.convert u) (a'.convert u') :=
  Paired.any.bind fun _ _ _ => .ok (ha.map hu _ _)

theorem convertTo (ha : a.Alike a') (text : String) : Paired Alike (a.convertTo text) (a'.convertTo text) :=
  .bind_same _ fun _ => ha.convert rfl

theorem toBase (ha : a.Alike a') : Paired Alike a.toBase a'.toBase := by
  rw [Quantity.toBase, Quantity.toBase, ← ha.unit]
  exact .bind_same _ fun _ => .ok (ha.map rfl _ _)

/-- Values in the unit of a text. -/
theorem ofText {v v' : Value R} (h : v.isScalar = v'.isScalar) (text : String) :
    Paired Alike (Quantity.ofText v text) (Quantity.ofText v' text) :=
  .bind_same _ fun _ => .ok ⟨rfl, Value.isScalar_map_congr h _ _⟩

end Quantity.Alike

namespace Session

open Quantity

variable {a b a' b' : Quantity R}

theorem paired_unary [Scalar R] (op : UnaryOperator) (ha : a.Alike a') :
    Paired Alike (unary op a) (unary op a') := by
  cases op with
  | negate => exact .ok ha.negate
  | plus => exact .ok ha
  | other => exact .error _

/-- An operator with two operands, of which an exponent is one quantity. -/
theorem paired_binary [Scalar R] (op : BinaryOperator) (ha : a.Alike a') (hb : b.Alike b')
    (hexponent : op = .power → b = b') : Paired Alike (binary op a b) (binary op a' b') := by
  cases op with
  | add => exact ha.add hb
  | subtract => exact ha.subtract hb
  | multiply => exact ha.multiply hb
  | divide => exact ha.divide hb
  | compare c => exact ha.compare c hb
  | other => exact .error _
  | power =>
    obtain rfl := hexponent rfl
    rw [binary, binary]
    split
    · exact .error _
    · exact .ite (.error _) (ha.pow _)

/-! ## Units in a session -/

section

variable [Scalar R] {units units' : Bindings (Quantity R)} (hunits : units.Related Alike units')
include hunits

omit [Scalar R] in
theorem contains_of_related (label : String) : units.contains label = units'.contains label := by
  rw [Bindings.contains, Bindings.contains]
  rcases hunits.get? label with ⟨hnone, hnone'⟩ | ⟨d, d', hd, hd', -⟩
  · rw [hnone, hnone']
  · rw [hd, hd']
    rfl

theorem paired_substitute (ha : a.Alike a') (t : UnitTerm R) :
    Paired Alike (substitute units a t) (substitute units' a' t) := by
  rw [substitute, substitute]
  rcases hunits.get? t.unit.base with ⟨hnone, hnone'⟩ | ⟨d, d', hd, hd', halike⟩
  · rw [hnone, hnone']
    exact .ok ha
  · rw [hd, hd']
    exact .bind_same _ fun k => (halike.pow k).bind fun _ _ hpow => ha.multiply hpow

theorem paired_unitQuantity (text : String) :
    Paired Alike (unitQuantity units text) (unitQuantity units' text) := by
  refine .bind_same _ fun read => Paired.foldlM (fun _ _ t ha => paired_substitute hunits ha t) _ ?_
  refine ⟨congrArg CompoundUnit.mk (List.filter_congr fun t _ => ?_), rfl⟩
  rw [contains_of_related hunits]

theorem paired_inUnit (ha : a.Alike a') (unit : Option String) :
    Paired Alike (inUnit units a unit) (inUnit units' a' unit) := by
  rw [inUnit, inUnit]
  split
  · exact .ok ha
  · exact (paired_unitQuantity hunits _).bind fun _ _ hunit => ha.multiply hunit

theorem paired_literal (x : R) (unit : Option String) :
    Paired Alike (literal units x unit) (literal units' x unit) := by
  rw [literal, literal]
  split
  · exact .ok (.refl _)
  · exact (paired_unitQuantity hunits _).bind fun _ _ hunit => .ok (hunit.map hunit.unit _ _)

theorem paired_convertTo (ha : a.Alike a') (target : String) :
    Paired Alike (convertTo units a target) (convertTo units' a' target) := by
  rw [convertTo, convertTo]
  refine .ite ha.toBase ?_
  rcases hunits.get? (Text.trimText target) with ⟨hnone, hnone'⟩ | ⟨d, d', hd, hd', halike⟩
  · rw [hnone, hnone']
    exact ha.convertTo _
  · rw [hd, hd']
    refine (ha.convert halike.unit).bind fun p p' hp => (hp.divide halike).bind fun r r' hr => ?_
    exact .bind_same _ fun _ => .ok ⟨rfl, hr.isScalar⟩

end

theorem paired_unitOf [Scalar R] (name : String) (count : R) (ha : a.Alike a') :
    Paired Alike (unitOf name count a) (unitOf name count a') :=
  .ite (.error _) (.ite (.ok ha) (ha.divide (.refl _)))

/-! ## Bounds of ranges -/

section

variable [Scalar R] {units units' : Bindings (Quantity R)} (hunits : units.Related Alike units')

/-- Bounds in one unit. -/
abbrev PairedBounds (e e' : Except (Fault R) (Bounds R)) : Prop :=
  Paired (fun b b' => b.unit = b'.unit) e e'

include hunits

theorem paired_trailingBounds (unit : String) :
    PairedBounds (trailingBounds units a b unit) (trailingBounds units' a' b' unit) := by
  refine (paired_unitQuantity hunits unit).bind fun q q' hq => ?_
  exact Paired.any.bind fun _ _ _ => Paired.any.bind fun _ _ _ => .ok hq.unit

theorem paired_strictBounds (node : Node) (ha : a.Alike a') (hb : b.Alike b') (unit : Option String) :
    PairedBounds (strictBounds units node a b unit) (strictBounds units' node a' b' unit) := by
  rw [strictBounds, strictBounds]
  split
  · exact paired_trailingBounds hunits _
  · rw [ownBounds, ownBounds, ← ha.hasUnit, ← hb.hasUnit, ← ha.unit, ← hb.unit]
    refine .ite (.ite (.error _) (.ite (.error _) ?_)) (.ite (.ok rfl) (.ok rfl))
    exact Paired.any.bind fun _ _ _ => .ok rfl

theorem paired_looseBounds (ha : a.Alike a') (hb : b.Alike b') (preferSecond : Bool)
    (unit : Option String) :
    PairedBounds (looseBounds units a b preferSecond unit) (looseBounds units' a' b' preferSecond unit) := by
  rw [looseBounds, looseBounds]
  split
  · exact paired_trailingBounds hunits _
  · refine Paired.any.bind fun _ _ _ => Paired.any.bind fun _ _ _ => .ok ?_
    cases preferSecond with
    | true =>
      show (if b.hasUnit then b.unit else a.unit) = if b'.hasUnit then b'.unit else a'.unit
      rw [ha.unit, hb.hasUnit, hb.unit]
    | false =>
      show (if a.hasUnit then a.unit else b.unit) = if a'.hasUnit then a'.unit else b'.unit
      rw [ha.hasUnit, ha.unit, hb.unit]

end

end Session

/-! ## Builtin functions of quantities -/

open Quantity

variable [Scalar R] {a b c a' b' c' : Quantity R}

theorem Score.Scale.isScalar_of_transform (scale : Scale) {v w : Value R} (h : scale.transform v = .ok w) :
    w.isScalar = v.isScalar := by
  rw [Scale.transform.eq_def] at h
  split at h
  · cases h
    rfl
  · split at h
    · cases h
    · cases h
      exact Value.isScalar_map _ _

theorem Score.paired_transform (scale : Scale) {v v' : Value R} (h : v.isScalar = v'.isScalar) :
    Paired (fun w w' => w.isScalar = w'.isScalar) (scale.transform v) (scale.transform v') :=
  fun _ _ hw hw' =>
    (scale.isScalar_of_transform hw).trans (h.trans (scale.isScalar_of_transform hw').symm)

/-- The reliabilities of two scores are both exact if the observations are. -/
theorem Score.paired_components (scale : Scale) (ha : a.Alike a') (hb : b.Alike b') :
    Paired (fun c c' => c.reliability.isScalar = c'.reliability.isScalar) (components scale a b)
      (components scale a' b') := by
  rw [components, components, ← ha.unit, ← hb.unit]
  refine .ite (.error _) ?_
  refine (hb.convert rfl).bind fun observed observed' hobserved => ?_
  refine Paired.any.bind fun x x' _ => ?_
  refine (paired_transform scale hobserved.isScalar).bind fun y y' hy => .ok ?_
  exact Value.isScalar_map_congr hy _ _

theorem Score.paired_evaluate (scale : Scale) (part : Part) (ha : a.Alike a') (hb : b.Alike b') :
    Paired Alike (evaluate scale part a b) (evaluate scale part a' b') := by
  refine (paired_components scale ha hb).bind fun c c' hc => ?_
  rw [← ha.unit]
  cases part with
  | score => exact .ok ⟨rfl, Value.isScalar_map_congr hc _ _⟩
  | reliability => exact .ok ⟨rfl, hc⟩
  | resolution => exact .ok ⟨rfl, rfl⟩

/-- A quantile is exact, whatever the quantity and the probability are. -/
theorem Summary.quantile_eq_ok {q p r : Quantity R} (h : quantile q p = .ok r) :
    r.unit = q.unit ∧ r.isScalar = true := by
  simp only [quantile] at h
  split at h
  · obtain ⟨x, -, hx⟩ := ok_of_bind h
    cases hx
    exact ⟨rfl, rfl⟩
  · cases h

theorem Summary.paired_quantile (ha : a.Alike a') : Paired Alike (quantile a b) (quantile a' b') := by
  intro r r' hr hr'
  obtain ⟨hunit, hscalar⟩ := quantile_eq_ok hr
  obtain ⟨hunit', hscalar'⟩ := quantile_eq_ok hr'
  exact ⟨hunit.trans (ha.unit.trans hunit'.symm), hscalar.trans hscalar'.symm⟩

namespace MathFunction

theorem paired_inRadians (function : String) (ha : a.Alike a') :
    Paired Alike (inRadians function a) (inRadians function a') := by
  rw [inRadians, inRadians, ← ha.hasUnit, ← ha.unit]
  exact .ite (.ok ha) (.ite (ha.convert rfl) (.error _))

theorem paired_inUnitOfFirst (function : String) (f : R → R → R) (ha : a.Alike a') (hb : b.Alike b') :
    Paired Alike (inUnitOfFirst function f a b) (inUnitOfFirst function f a' b') :=
  Paired.any.bind fun _ _ _ => (hb.convert ha.unit).bind fun _ _ hconverted =>
    .ok (ha.zipWith hconverted ha.unit _ _)

/-- Powers with one quantity as exponent. -/
theorem paired_raise (ha : a.Alike a') (exponent : Quantity R) :
    Paired Alike (raise a exponent) (raise a' exponent) := by
  refine Paired.any.bind fun _ _ _ => ?_
  split
  · exact ha.pow _
  · rename_i k _
    exact .ok (ha.zipWith (b := ⟨.sample k, .one⟩) (.refl _) rfl _ _)

theorem paired_between (ha : a.Alike a') (hb : b.Alike b') (hc : c.Alike c') :
    Paired Alike (between a b c) (between a' b' c') := by
  refine Paired.any.bind fun _ _ _ => Paired.any.bind fun _ _ _ => ?_
  refine (hb.convert ha.unit).bind fun low low' hlow => (hc.convert ha.unit).bind fun high high' hhigh => ?_
  exact .ok (ha.zipWith3 hlow hhigh ha.unit _ _)

end MathFunction

/-- An operation that gives alike quantities for alike arguments. -/
def Operation.Respects : Operation R → Prop
  | .unary f => ∀ {a a'}, a.Alike a' → Paired Alike (f a) (f a')
  | .binary f => ∀ {a a' b b'}, a.Alike a' → b.Alike b' → Paired Alike (f a b) (f a' b')
  | .ternary f => ∀ {a a' b b' c c'}, a.Alike a' → b.Alike b' → c.Alike c' →
      Paired Alike (f a b c) (f a' b' c')

omit [Scalar R] in
theorem Operation.Respects.call {f : Operation R} (h : f.Respects) {qs qs' : List (Quantity R)}
    (hqs : List.Forall₂ Alike qs qs') {e e' : Except (Fault R) (Quantity R)}
    (he : f.call? qs = some e) (he' : f.call? qs' = some e') : Paired Alike e e' := by
  rw [Operation.call?.eq_def] at he
  split at he
  · obtain _ | ⟨ha, _ | _⟩ := hqs
    cases he
    cases he'
    exact h ha
  · obtain _ | ⟨ha, _ | ⟨hb, _ | _⟩⟩ := hqs
    cases he
    cases he'
    exact h ha hb
  · obtain _ | ⟨ha, _ | ⟨hb, _ | ⟨hc, _ | _⟩⟩⟩ := hqs
    cases he
    cases he'
    exact h ha hb hc
  · cases he

namespace MathFunction

/-- Every function of quantities but the power gives alike quantities for alike arguments. -/
theorem respects {f : MathFunction} (hf : f ≠ .power) : (f.operation : Operation R).Respects := by
  cases f with
  | power => exact absurd rfl hf
  | keepingUnit => exact fun ha => .ok (ha.map ha.unit _ _)
  | sign => exact fun ha => .ok (ha.map rfl _ _)
  | ofPlain | toAngle => exact fun ha => Paired.any.bind fun _ _ _ => .ok (ha.map rfl _ _)
  | ofAngle => exact fun ha => (paired_inRadians _ ha).bind fun _ _ h => .ok (h.map rfl _ _)
  | squareRoot => exact fun ha => ha.pow _
  | cubeRoot =>
    intro a a' ha
    show Paired Alike (a.unit.pow _ >>= _) (a'.unit.pow _ >>= _)
    rw [← ha.unit]
    exact .bind_same _ fun _ => .ok (ha.map rfl _ _)
  | minimum | maximum | hypotenuse => exact fun ha hb => paired_inUnitOfFirst _ _ ha hb
  | pointAngle => exact fun ha hb => (paired_inUnitOfFirst _ _ ha hb).bind fun _ _ h => .ok ⟨rfl, h.isScalar⟩
  | clamp => exact fun ha hb hc => paired_between ha hb hc
  | quantile => exact fun ha _ => Summary.paired_quantile ha
  | fixedQuantile | mean | deviation => exact fun ha => .ok ⟨ha.unit, rfl⟩
  | score scale part => exact fun ha hb => Score.paired_evaluate scale part ha hb

/-- Calls with alike arguments; those of the power have one exponent. -/
theorem paired_call (f : MathFunction) {qs qs' : List (Quantity R)} (hqs : List.Forall₂ Alike qs qs')
    (hexponent : f = .power → qs[1]? = qs'[1]?) {e e' : Except (Fault R) (Quantity R)}
    (he : f.operation.call? qs = some e) (he' : f.operation.call? qs' = some e') : Paired Alike e e' := by
  by_cases hf : f = .power
  · subst hf
    obtain _ | ⟨ha, _ | ⟨-, _ | _⟩⟩ := hqs
    any_goals cases he
    cases he'
    obtain rfl := Option.some.inj (hexponent rfl)
    exact paired_raise ha _
  · exact (respects hf).call hqs he he'

end MathFunction

end Ballpark
