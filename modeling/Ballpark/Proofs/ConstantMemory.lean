import Ballpark.Proofs.Bindings
import Ballpark.Proofs.Evaluation

/-!
# What a session remembers of constants

The look-up of a constant (`Remembers`) takes what the session remembers, or draws a value and remembers it.
An exact constant needs no draw, and its value is the same in every session; of two sessions that remember
the same values of the constants that are drawn, both look up the same.
-/

namespace Ballpark

variable {R S : Type} [Scalar R]

/-- Is the constant exact, so that nothing is drawn for it? -/
def Constant.isExact {R : Type} : Constant R → Bool
  | .exact .. => true
  | _ => false

/-- Does a name stand for no constant that is drawn? -/
def Constant.NotDrawn (R : Type) [Scalar R] (name : String) : Prop :=
  ∀ c : Constant R, Constant.ofName? name = some c → c.isExact = true

/-- The exact constants that have been looked up have their values. -/
def RemembersExactly (constants : Bindings (Quantity R)) : Prop :=
  ∀ key value unit q, Constant.table.lookup key = some (.exact value unit) →
    constants.get? key = some q → Quantity.ofText (.scalar value) unit = .ok q

/-- Two tables of constants hold the same values of those that are drawn. -/
def SameDrawn (b c : Bindings (Quantity R)) : Prop :=
  ∀ key (constant : Constant R), Constant.table.lookup key = some constant → constant.isExact = false →
    b.get? key = c.get? key

theorem SameDrawn.set {b c : Bindings (Quantity R)} (h : SameDrawn b c) (key : String) (q : Quantity R) :
    SameDrawn (b.set key q) (c.set key q) := by
  intro other constant hconstant hdrawn
  rw [Bindings.get?_set, Bindings.get?_set, h other constant hconstant hdrawn]

theorem RemembersExactly.set {b : Bindings (Quantity R)} (h : RemembersExactly b) {key : String}
    {q : Quantity R} (hkey : ∀ value unit, Constant.table.lookup key = some (.exact value unit) →
      Quantity.ofText (.scalar value) unit = .ok q) : RemembersExactly (b.set key q) := by
  intro other value unit p hconstant hp
  rw [Bindings.get?_set] at hp
  split at hp
  · rename_i heq
    cases hp
    exact hkey value unit (heq ▸ hconstant)
  · exact h other value unit p hconstant hp

/-- What the look-up of a constant comes to. -/
inductive Remembers [RandomSource S R] (confidence : Written R) (count : Except (Fault R) SampleCount)
    (name : String) (constants : Bindings (Quantity R)) (source : S) :
    Option (Quantity R) → Bindings (Quantity R) → S → Prop
  | unknown (h : Constant.ofName? (R := R) name = none) :
      Remembers confidence count name constants source none constants source
  | known {constant : Constant R} {q : Quantity R} (h : Constant.ofName? name = some constant)
      (hq : constants.get? (Constant.ownName name) = some q) :
      Remembers confidence count name constants source (some q) constants source
  | drawn {constant : Constant R} {q : Quantity R} {source' : S} (h : Constant.ofName? name = some constant)
      (hnew : constants.get? (Constant.ownName name) = none)
      (hdraw : (constant.draw confidence count).run source = (.ok q, source')) :
      Remembers confidence count name constants source (some q)
        (constants.set (Constant.ownName name) q) source'

section

variable [RandomSource S R] {confidence : Written R} {count : Except (Fault R) SampleCount} {name : String}
  {constants found : Bindings (Quantity R)} {source source' : S} {value : Option (Quantity R)}

theorem remembers_of_run
    (h : (Constant.remember confidence count name constants).run source = (.ok (value, found), source')) :
    Remembers confidence count name constants source value found source' := by
  rw [Constant.remember] at h
  rcases hname : (Constant.ofName? name : Option (Constant R)) with _ | constant
  · rw [hname] at h
    cases h
    exact .unknown hname
  · rw [hname] at h
    rcases hkey : constants.get? (Constant.ownName name) with _ | q
    · rw [hkey] at h
      obtain ⟨q, u, hdraw, hrest⟩ := Evaluation.run_bind_eq_ok.mp h
      cases hrest
      exact .drawn hname hkey hdraw
    · rw [hkey] at h
      cases h
      exact .known hname hkey

/-- The look-up fails where a constant that is not remembered cannot be drawn. -/
theorem draw_of_remember_eq_error {f : Fault R}
    (h : (Constant.remember confidence count name constants).run source = (.error f, source')) :
    ∃ constant : Constant R, Constant.ofName? name = some constant ∧
      constants.get? (Constant.ownName name) = none ∧
      (constant.draw confidence count).run source = (.error f, source') := by
  rw [Constant.remember] at h
  rcases hname : (Constant.ofName? name : Option (Constant R)) with _ | constant
  · rw [hname] at h
    cases h
  · rw [hname] at h
    rcases hkey : constants.get? (Constant.ownName name) with _ | q
    · rw [hkey] at h
      rcases Evaluation.run_bind_eq_error.mp h with hdraw | ⟨q, u, -, hrest⟩
      · exact ⟨constant, rfl, rfl, hdraw⟩
      · cases hrest
    · rw [hkey] at h
      cases h

theorem Remembers.isSome (h : Remembers confidence count name constants source value found source') :
    value.isSome = (Constant.ofName? name : Option (Constant R)).isSome := by
  cases h with
  | unknown h | known h | drawn h => rw [h]; rfl

/-- What has been remembered stays. -/
theorem Remembers.keeps (h : Remembers confidence count name constants source value found source')
    {other : String} {q : Quantity R} (hq : constants.get? other = some q) : found.get? other = some q := by
  cases h with
  | unknown | known => exact hq
  | drawn _ hnew =>
    -- what is new is under another name
    have hother : other ≠ Constant.ownName name := by
      rintro rfl
      cases hnew.symm.trans hq
    rw [Bindings.get?_set, if_neg hother]
    exact hq

/-- A constant that is drawn has the value that has been drawn before, or a new one. -/
theorem Remembers.of_drawn (h : Remembers confidence count name constants source value found source')
    {constants' found' : Bindings (Quantity R)} {source'' : S} {value' : Option (Quantity R)}
    (h' : Remembers confidence count name constants' source value' found' source'')
    (hkey : constants.get? (Constant.ownName name) = constants'.get? (Constant.ownName name))
    (hsame : SameDrawn constants constants') :
    value = value' ∧ source' = source'' ∧ SameDrawn found found' := by
  cases h with
  | unknown hnone =>
    cases h' with
    | unknown => exact ⟨rfl, rfl, hsame⟩
    -- a name is in the table for both sessions or for neither
    | known h | drawn h => cases hnone.symm.trans h
  | known hsome hq =>
    cases h' with
    | unknown h => cases h.symm.trans hsome
    | known h hq' => exact ⟨hq.symm.trans (hkey.trans hq'), rfl, hsame⟩
    -- what one session knows under the key, the other knows too
    | drawn h hnew => cases hq.symm.trans (hkey.trans hnew)
  | drawn hsome hnew hdraw =>
    cases h' with
    | unknown h => cases h.symm.trans hsome
    | known h hq => cases hnew.symm.trans (hkey.trans hq)
    -- both draw, from one source, so they draw one value
    | drawn h _ hdraw' =>
      cases hsome.symm.trans h
      cases hdraw.symm.trans hdraw'
      exact ⟨rfl, rfl, hsame.set _ _⟩

/-- Exact constants are remembered with their values. -/
theorem Remembers.exact (h : Remembers confidence count name constants source value found source')
    (hexact : RemembersExactly constants) : RemembersExactly found := by
  cases h with
  | unknown | known => exact hexact
  | drawn h hnew hdraw =>
    refine hexact.set fun x unit hlookup => ?_
    cases hlookup.symm.trans h
    exact (Prod.mk.inj hdraw).1

/-- An exact constant is looked up without a draw. -/
theorem Remembers.of_notDrawn (h : Remembers confidence count name constants source value found source')
    (hname : Constant.NotDrawn R name) : source' = source ∧ SameDrawn constants found := by
  cases h with
  | unknown | known => exact ⟨rfl, fun _ _ _ _ => rfl⟩
  | drawn h hnew hdraw =>
    have hconstant := hname _ h
    rename_i constant q
    cases constant with
    | exact x unit =>
      refine ⟨(Prod.mk.inj hdraw).2.symm, fun key other hother hdrawn => ?_⟩
      rw [Bindings.get?_set]
      split
      · rename_i heq
        cases (heq ▸ hother).symm.trans h
        cases hdrawn
      · rfl
    | _ => cases hconstant

/-- The value of an exact constant does not depend on the session. -/
theorem Remembers.value_of_notDrawn
    (h : Remembers confidence count name constants source value found source')
    (hname : Constant.NotDrawn R name) (hexact : RemembersExactly constants) {q : Quantity R}
    (hq : value = some q) : ∃ x unit, Constant.ofName? name = some (.exact x unit) ∧
      Quantity.ofText (.scalar x) unit = .ok q := by
  have hfound := h.exact hexact
  cases h with
  | unknown => cases hq
  | known h hkey =>
    cases hq
    have hconstant := hname _ h
    rename_i constant
    cases constant with
    | exact x unit => exact ⟨x, unit, h, hexact _ _ _ _ h hkey⟩
    | _ => cases hconstant
  | drawn h =>
    cases hq
    have hconstant := hname _ h
    rename_i constant _ _
    cases constant with
    | exact x unit =>
      exact ⟨x, unit, h, hfound _ _ _ _ h (by rw [Bindings.get?_set, if_pos rfl])⟩
    | _ => cases hconstant

end

/-! ## Looking a constant up in a session -/

namespace Session

variable [RandomSource S R] {name : String} {s t : Session R S}

theorem run_constant_eq_ok {value : Option (Quantity R)}
    (h : (constant? name).run s = (.ok value, t)) : ∃ found source,
      Remembers s.settings.confidence (.ok s.settings.sampleCount) name s.constants s.source value found
        source ∧ t = { s with source, constants := found } := by
  rw [constant?, Evaluation.run_bind_of_ok (Evaluation.run_get s)] at h
  obtain ⟨⟨found, constants⟩, u, hdraw, hrest⟩ := Evaluation.run_bind_eq_ok.mp h
  rw [Evaluation.run_draw, Prod.mk.injEq] at hdraw
  obtain ⟨hresult, rfl⟩ := hdraw
  cases hrest
  exact ⟨_, _, remembers_of_run (Prod.ext hresult rfl), rfl⟩

/-- Nothing is remembered of a constant that cannot be drawn. -/
theorem run_constant_eq_error {f : Fault R} (h : (constant? name).run s = (.error f, t)) :
    ∃ (constant : Constant R) (source : S), Constant.ofName? name = some constant ∧
      s.constants.get? (Constant.ownName name) = none ∧
      (constant.draw s.settings.confidence (.ok s.settings.sampleCount)).run s.source = (.error f, source) ∧
      t = { s with source } := by
  rw [constant?, Evaluation.run_bind_of_ok (Evaluation.run_get s)] at h
  rcases Evaluation.run_bind_eq_error.mp h with hdraw | ⟨found, u, -, hrest⟩
  · rw [Evaluation.run_draw, Prod.mk.injEq] at hdraw
    obtain ⟨hresult, rfl⟩ := hdraw
    obtain ⟨constant, hname, hnew, hfails⟩ := draw_of_remember_eq_error (Prod.ext hresult rfl)
    exact ⟨constant, _, hname, hnew, hfails, rfl⟩
  · cases hrest

end Session

end Ballpark
