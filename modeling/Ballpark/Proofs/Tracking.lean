import Ballpark.Proofs.Evaluation

/-!
# Two evaluations side by side

One evaluation tracks another if, whenever the first succeeds, it leaves its session as it was, and so
does the second, with a related result. Evaluations that are put together from tracking parts track
each other, whatever the relation between results is from part to part.
-/

namespace Ballpark

variable {R S : Type} {α β γ δ : Type}

/-- From the session `s` the first computation leaves the session alone when it succeeds, and then the
second does the same on `s'`, with a related result. -/
def Tracks (s s' : Session R S) (rel : α → β → Prop) (m : Evaluation R S α) (m' : Evaluation R S β) :
    Prop :=
  ∀ a t, m.run s = (.ok a, t) → t = s ∧ ∃ b, m'.run s' = (.ok b, s') ∧ rel a b

namespace Tracks

variable {s s' : Session R S} {rel : α → β → Prop} {rel' : γ → δ → Prop}

theorem pure {a : α} {b : β} (h : rel a b) :
    Tracks s s' rel (Pure.pure a) (Pure.pure b) := by
  intro x t hx
  rw [Evaluation.run_pure] at hx
  cases hx
  exact ⟨rfl, b, rfl, h⟩

theorem throw {f : Fault R} {m' : Evaluation R S β} :
    Tracks s s' rel (MonadExcept.throw f) m' := by
  intro x t hx
  rw [Evaluation.run_throw] at hx
  cases hx

theorem get : Tracks s s' (fun a b => a = s ∧ b = s') MonadState.get MonadState.get := by
  intro x t hx
  rw [Evaluation.run_get] at hx
  cases hx
  exact ⟨rfl, s', rfl, rfl, rfl⟩

theorem bind {m : Evaluation R S α} {m' : Evaluation R S β} {f : α → Evaluation R S γ}
    {f' : β → Evaluation R S δ} (hm : Tracks s s' rel m m')
    (hf : ∀ a b, rel a b → Tracks s s' rel' (f a) (f' b)) :
    Tracks s s' rel' (m >>= f) (m' >>= f') := by
  intro c t h
  obtain ⟨a, u, hma, hfa⟩ := Evaluation.run_bind_eq_ok.mp h
  obtain ⟨rfl, b, hmb, hab⟩ := hm a u hma
  obtain ⟨rfl, d, hfd, hcd⟩ := hf a b hab c t hfa
  exact ⟨rfl, d, (Evaluation.run_bind_of_ok hmb).trans hfd, hcd⟩

theorem ofExcept {e : Except (Fault R) α} {e' : Except (Fault R) β}
    (h : ∀ a, e = .ok a → ∃ b, e' = .ok b ∧ rel a b) :
    Tracks s s' rel (Evaluation.ofExcept e) (Evaluation.ofExcept e') := by
  intro a t ha
  obtain ⟨he, rfl⟩ := Evaluation.run_ofExcept_eq_ok.mp ha
  obtain ⟨b, hb, hab⟩ := h a he
  exact ⟨rfl, b, Evaluation.run_ofExcept_eq_ok.mpr ⟨hb, rfl⟩, hab⟩

/-- Values that both are there, and related. -/
def Both (rel : α → β → Prop) (a : Option α) (b : Option β) : Prop :=
  ∃ x y, a = some x ∧ b = some y ∧ rel x y

theorem some {m : Evaluation R S α} {m' : Evaluation R S β} (h : Tracks s s' rel m m') :
    Tracks s s' (Both rel) (Option.some <$> m) (Option.some <$> m') := by
  intro a t ha
  obtain ⟨x, hx, rfl⟩ := Evaluation.run_map_eq_ok.mp ha
  obtain ⟨rfl, y, hy, hxy⟩ := h x t hx
  exact ⟨rfl, Option.some y, Evaluation.run_some_eq_ok.mpr hy, x, y, rfl, rfl, hxy⟩

theorem required {rel : Quantity R → Quantity R → Prop} {node node' : Node}
    {m m' : Evaluation R S (Option (Quantity R))} (h : Tracks s s' (Both rel) m m') :
    Tracks s s' rel (Session.required node m) (Session.required node' m') := by
  intro q t hq
  obtain ⟨rfl, b, hb, x, y, hx, hy, hxy⟩ := h _ _ (Session.run_required_eq_ok.mp hq)
  cases hx
  cases hy
  exact ⟨rfl, y, Session.run_required_eq_ok.mpr hb, hxy⟩

end Tracks

end Ballpark
