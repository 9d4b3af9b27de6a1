import Ballpark.Session.Run

/-!
# Running evaluations

An evaluation is run on a session and gives an outcome and the session that it leaves; a sampler is run
on a random source and gives an outcome and the source that it leaves. These lemmas say what the pieces
give that both are made of, and take the run of a composed one apart: it succeeds exactly if its first
part does and the rest does on the state that the first part has left.
-/

namespace Ballpark

variable {R S : Type} {α β : Type}

namespace Evaluation

section

variable {ε σ : Type} {m : ExceptT ε (StateM σ) α} {f : α → ExceptT ε (StateM σ) β} {s t : σ}

theorem run_pure (a : α) (s : σ) : (pure a : ExceptT ε (StateM σ) α).run s = (.ok a, s) := rfl

theorem run_throw (e : ε) (s : σ) :
    (throw e : ExceptT ε (StateM σ) α).run s = (.error e, s) := rfl

theorem run_bind_of_ok {a : α} (h : m.run s = (.ok a, t)) : (m >>= f).run s = (f a).run t := by
  have hrun : (m >>= f).run s = ExceptT.bindCont f (m.run s).1 (m.run s).2 := rfl
  rw [hrun, h]
  rfl

theorem run_bind_of_error {e : ε} (h : m.run s = (.error e, t)) :
    (m >>= f).run s = (.error e, t) := by
  have hrun : (m >>= f).run s = ExceptT.bindCont f (m.run s).1 (m.run s).2 := rfl
  rw [hrun, h]
  rfl

/-- A composed evaluation succeeds exactly if both its parts do, one after the other. -/
theorem run_bind_eq_ok {b : β} :
    (m >>= f).run s = (.ok b, t) ↔ ∃ a u, m.run s = (.ok a, u) ∧ (f a).run u = (.ok b, t) := by
  constructor
  · intro h
    rcases hm : m.run s with ⟨e | a, u⟩
    · rw [run_bind_of_error hm] at h
      cases h
    · rw [run_bind_of_ok hm] at h
      exact ⟨a, u, rfl, h⟩
  · rintro ⟨a, u, hm, hf⟩
    rw [run_bind_of_ok hm, hf]

/-- A composed evaluation fails where one of its parts does. -/
theorem run_bind_eq_error {e : ε} : (m >>= f).run s = (.error e, t) ↔
    m.run s = (.error e, t) ∨ ∃ a u, m.run s = (.ok a, u) ∧ (f a).run u = (.error e, t) := by
  constructor
  · intro h
    rcases hm : m.run s with ⟨e' | a, u⟩
    · rw [run_bind_of_error hm] at h
      cases h
      exact .inl rfl
    · rw [run_bind_of_ok hm] at h
      exact .inr ⟨a, u, rfl, h⟩
  · rintro (hm | ⟨a, u, hm, hf⟩)
    · exact run_bind_of_error hm
    · rw [run_bind_of_ok hm, hf]

theorem run_map_of_error {g : α → β} {e : ε} (h : m.run s = (.error e, t)) :
    (g <$> m).run s = (.error e, t) := by
  rw [map_eq_pure_bind, run_bind_of_error h]

theorem run_map_eq_error {g : α → β} {e : ε} :
    (g <$> m).run s = (.error e, t) ↔ m.run s = (.error e, t) := by
  rw [map_eq_pure_bind, run_bind_eq_error]
  constructor
  · rintro (hm | ⟨a, u, -, hpure⟩)
    · exact hm
    · rw [run_pure] at hpure
      cases hpure
  · exact .inl

theorem run_tryCatch_of_ok {handle : ε → ExceptT ε (StateM σ) α} {a : α}
    (h : m.run s = (.ok a, t)) : (tryCatch m handle).run s = (.ok a, t) := by
  rw [ExceptT.run_tryCatch]
  simp only [bind, StateT.bind, h]
  rfl

/-- A fault is handled in the state that it has left. -/
theorem run_tryCatch_of_error {handle : ε → ExceptT ε (StateM σ) α} {e : ε}
    (h : m.run s = (.error e, t)) : (tryCatch m handle).run s = (handle e).run t := by
  rw [ExceptT.run_tryCatch]
  simp only [bind, StateT.bind, h]

theorem run_map_eq_ok {g : α → β} {b : β} :
    (g <$> m).run s = (.ok b, t) ↔ ∃ a, m.run s = (.ok a, t) ∧ g a = b := by
  rw [map_eq_pure_bind, run_bind_eq_ok]
  constructor
  · rintro ⟨a, u, hm, hf⟩
    rw [run_pure] at hf
    cases hf
    exact ⟨a, hm, rfl⟩
  · rintro ⟨a, hm, rfl⟩
    exact ⟨a, t, hm, rfl⟩

end

theorem run_ofExcept (e : Except (Fault R) α) (s : Session R S) :
    (ofExcept e : Evaluation R S α).run s = (e, s) := rfl

theorem run_get (s : Session R S) : (get : Evaluation R S (Session R S)).run s = (.ok s, s) := rfl

theorem run_draw (d : Draw R S α) (s : Session R S) :
    (draw d).run s = ((d.run s.source).1, { s with source := (d.run s.source).2 }) := rfl

/-- A value that is wrapped up as the value of a node. -/
theorem run_some_eq_ok {m : Evaluation R S α} {s t : Session R S} {a : α} :
    (some <$> m).run s = (.ok (some a), t) ↔ m.run s = (.ok a, t) := by
  rw [run_map_eq_ok]
  constructor
  · rintro ⟨b, hm, hb⟩
    cases hb
    exact hm
  · exact fun hm => ⟨a, hm, rfl⟩

theorem run_ofExcept_eq_ok {e : Except (Fault R) α} {s t : Session R S} {a : α} :
    (ofExcept e : Evaluation R S α).run s = (.ok a, t) ↔ e = .ok a ∧ s = t := by
  rw [run_ofExcept, Prod.mk.injEq]

end Evaluation

namespace Session

open Evaluation

theorem run_required_eq_ok {node : Node} {m : Evaluation R S (Option (Quantity R))}
    {s t : Session R S} {q : Quantity R} :
    (required node m).run s = (.ok q, t) ↔ m.run s = (.ok (some q), t) := by
  rw [required, run_bind_eq_ok]
  constructor
  · rintro ⟨a, u, hm, ha⟩
    rcases a with _ | p
    · rw [run_throw] at ha
      cases ha
    · rw [run_pure] at ha
      cases ha
      exact hm
  · exact fun hm => ⟨some q, t, hm, rfl⟩

theorem run_withUnits (f : Bindings (Quantity R) → Except (Fault R) α) (s : Session R S) :
    (withUnits f : Evaluation R S α).run s = (f s.units, s) := rfl

theorem run_withUnits_eq_ok {f : Bindings (Quantity R) → Except (Fault R) α} {s t : Session R S}
    {a : α} : (withUnits f : Evaluation R S α).run s = (.ok a, t) ↔ f s.units = .ok a ∧ s = t := by
  rw [run_withUnits, Prod.mk.injEq]

variable [Scalar R] [RandomSource S R]

/-- A variable as an operand is its value, and the session stays as it is. -/
theorem run_required_variable {s : Session R S} {x : String} {q : Quantity R}
    (hx : s.values.get? x = some q) (body : TreeEvaluation R S) :
    (required (.identifier x) (evaluateNode body [] (.identifier x))).run s = (.ok q, s) := by
  have hlookup : (lookup? [] x : Evaluation R S (Option (Quantity R))).run s = (.ok (some q), s) := by
    show (valueOf? x : Evaluation R S (Option (Quantity R))).run s = _
    rw [valueOf?, run_bind_of_ok (run_get s), hx]
    rfl
  rw [run_required_eq_ok, evaluateNode, run_some_eq_ok, identifier, run_bind_of_ok hlookup]
  rfl

/-- What a tree comes to in a session. -/
def outcome (node : Node) (s : Session R S) : Except (Fault R) (Option (Quantity R)) :=
  ((evaluateTree node).run s).1

/-- The session that the evaluation of a tree leaves. -/
def next (node : Node) (s : Session R S) : Session R S :=
  ((evaluateTree node).run s).2

end Session

/-- A source that gives one uniform and one normal number for ever. -/
structure ConstantSource (R : Type) where
  uniform : R
  normal : R

instance [Scalar R] : RandomSource (ConstantSource R) R where
  uniform s := (s.uniform, s)
  normal s := (s.normal, s)
  seeded _ := ⟨Scalar.ofNat 0, Scalar.ofNat 0⟩

/-- A source whose numbers are given beforehand. When they are used up it gives zero. -/
structure ScriptedSource (R : Type) where
  uniforms : List R
  normals : List R

instance [Scalar R] : RandomSource (ScriptedSource R) R where
  uniform s := (s.uniforms.headD (Scalar.ofNat 0), { s with uniforms := s.uniforms.tail })
  normal s := (s.normals.headD (Scalar.ofNat 0), { s with normals := s.normals.tail })
  seeded _ := ⟨[], []⟩

end Ballpark
