import Ballpark.Proofs.Evaluation

/-!
# Two runs side by side

What two computations have in common that both succeed: started in states that are related they give
related results and leave related states (`Coupled`). The rules follow the way computations are put
together. Of a single computation it is often enough to know where it moves the state to (`Moves`).
-/

namespace Ballpark

variable {ε σ α β : Type}

/-- Every successful run of a computation moves the state along a relation. -/
def Moves (M : σ → σ → Prop) (m : ExceptT ε (StateM σ) α) : Prop :=
  ∀ s a t, m.run s = (.ok a, t) → M s t

namespace Moves

variable {M N : σ → σ → Prop} {m n : ExceptT ε (StateM σ) α}

theorem pure (hrefl : ∀ s, M s s) (a : α) : Moves M (Pure.pure a : ExceptT ε (StateM σ) α) := by
  intro s b t h
  rw [Evaluation.run_pure] at h
  cases h
  exact hrefl s

theorem throw (e : ε) : Moves M (MonadExcept.throw e : ExceptT ε (StateM σ) α) :=
  fun _ _ _ h => nomatch h

theorem bind {f : α → ExceptT ε (StateM σ) β} (htrans : ∀ s t u, M s t → M t u → M s u)
    (hm : Moves M m) (hf : ∀ a, Moves M (f a)) : Moves M (m >>= f) := by
  intro s b u h
  obtain ⟨a, t, hs, ht⟩ := Evaluation.run_bind_eq_ok.mp h
  exact htrans s t u (hm s a t hs) (hf a t b u ht)

end Moves

/-- Two successful runs from related states give related results and leave related states. -/
def Coupled {σ' α' : Type} (I : σ → σ' → Prop) (m : ExceptT ε (StateM σ) α) (m' : ExceptT ε (StateM σ') α')
    (P : α → α' → Prop) : Prop :=
  ∀ s s', I s s' → ∀ a t a' t', m.run s = (.ok a, t) → m'.run s' = (.ok a', t') → P a a' ∧ I t t'

namespace Coupled

variable {σ' α' β' : Type} {I : σ → σ' → Prop} {P Q : α → α' → Prop} {T : β → β' → Prop}
  {m n : ExceptT ε (StateM σ) α} {m' n' : ExceptT ε (StateM σ') α'}

theorem pure {a : α} {a' : α'} (h : P a a') :
    Coupled I (Pure.pure a : ExceptT ε (StateM σ) α) (Pure.pure a' : ExceptT ε (StateM σ') α') P := by
  intro s s' hs b t b' t' hb hb'
  rw [Evaluation.run_pure] at hb hb'
  cases hb
  cases hb'
  exact ⟨h, hs⟩

theorem throw (e : ε) : Coupled I (MonadExcept.throw e) m' P :=
  fun _ _ _ _ _ _ _ h => nomatch h

theorem throw_right (e : ε) : Coupled I m (MonadExcept.throw e) P :=
  fun _ _ _ _ _ _ _ _ h => nomatch h

theorem bind {f : α → ExceptT ε (StateM σ) β} {f' : α' → ExceptT ε (StateM σ') β'} (hm : Coupled I m m' P)
    (hf : ∀ a a', P a a' → Coupled I (f a) (f' a') T) : Coupled I (m >>= f) (m' >>= f') T := by
  intro s s' hs b u b' u' h h'
  obtain ⟨a, t, hrun, hrest⟩ := Evaluation.run_bind_eq_ok.mp h
  obtain ⟨a', t', hrun', hrest'⟩ := Evaluation.run_bind_eq_ok.mp h'
  obtain ⟨ha, ht⟩ := hm s s' hs a t a' t' hrun hrun'
  exact hf a a' ha t t' ht b u b' u' hrest hrest'

theorem mono (hm : Coupled I m m' P) (h : ∀ a a', P a a' → Q a a') : Coupled I m m' Q :=
  fun s s' hs a t a' t' hrun hrun' => (hm s s' hs a t a' t' hrun hrun').imp_left (h a a')

theorem get : Coupled I (MonadState.get : ExceptT ε (StateM σ) σ)
    (MonadState.get : ExceptT ε (StateM σ') σ') I := by
  intro s s' hs a t a' t' h h'
  cases h
  cases h'
  exact ⟨hs, hs⟩

theorem modify {f : σ → σ} {f' : σ' → σ'} (h : ∀ s s', I s s' → I (f s) (f' s')) :
    Coupled I (modifyThe σ f : ExceptT ε (StateM σ) PUnit) (modifyThe σ' f' : ExceptT ε (StateM σ') PUnit)
      fun _ _ => True := by
  intro s s' hs a t a' t' hrun hrun'
  cases hrun
  cases hrun'
  exact ⟨trivial, h s s' hs⟩

end Coupled

end Ballpark
