import Ballpark.Random.Source

/-!
# Outcomes of computations

What a computation that may fail ends in: a result with one property or a fault with another. The rules
here follow the way computations are put together, so that the outcome of a long one is read off its
parts. They come twice: for plain failure, and for computations that keep their state when they fail,
where an invariant of the state is carried along.
-/

namespace Ballpark

variable {ε α β : Type}

/-- A result has the property `P`, a fault the property `E`. -/
inductive Ends : Except ε α → (α → Prop) → (ε → Prop) → Prop
  | ok {a : α} {P : α → Prop} {E : ε → Prop} (h : P a) : Ends (.ok a) P E
  | error {e : ε} {P : α → Prop} {E : ε → Prop} (h : E e) : Ends (.error e) P E

/-- A computation in two steps has a result only if both have one. -/
theorem ok_of_bind {x : Except ε α} {f : α → Except ε β} {b : β} (h : x >>= f = .ok b) :
    ∃ a, x = .ok a ∧ f a = .ok b := by
  cases x with
  | ok a => exact ⟨a, rfl, h⟩
  | error => cases h

theorem bind_of_ok {x : Except ε α} {a : α} (h : x = .ok a) (f : α → Except ε β) : x >>= f = f a := by
  rw [h]
  rfl

/-- A computation in two steps fails where one of them does. -/
theorem error_of_bind {x : Except ε α} {f : α → Except ε β} {e : ε} (h : x >>= f = .error e) :
    x = .error e ∨ ∃ a, x = .ok a ∧ f a = .error e := by
  cases x with
  | ok a => exact .inr ⟨a, rfl, h⟩
  | error =>
    cases h
    exact .inl rfl

/-- If every item of a list has a result, so has the list. -/
theorem mapM_of_ok {f : α → Except ε β} {g : α → β} {xs : List α} (h : ∀ x ∈ xs, f x = .ok (g x)) :
    xs.mapM f = .ok (xs.map g) := by
  induction xs with
  | nil => rfl
  | cons x rest ih =>
    obtain ⟨hx, hrest⟩ := List.forall_mem_cons.mp h
    rw [List.mapM_cons, hx, ih hrest]
    rfl

/-- A list is gone through only if every item has a result. -/
theorem ok_of_mapM {f : α → Except ε β} {xs : List α} {ys : List β} (h : xs.mapM f = .ok ys) {x : α}
    (hx : x ∈ xs) : ∃ y, f x = .ok y := by
  induction xs generalizing ys with
  | nil => cases hx
  | cons z rest ih =>
    rw [List.mapM_cons] at h
    obtain ⟨y, hy, h⟩ := ok_of_bind h
    obtain ⟨zs, hzs, -⟩ := ok_of_bind h
    rcases List.mem_cons.mp hx with rfl | hrest
    · exact ⟨y, hy⟩
    · exact ih hzs hrest

namespace Ends

variable {P Q : α → Prop} {T : β → Prop} {E F : ε → Prop}

theorem bind {x : Except ε α} {f : α → Except ε β} (hx : Ends x P E)
    (hf : ∀ a, P a → Ends (f a) T E) : Ends (x >>= f) T E := by
  cases hx with
  | ok h => exact hf _ h
  | error h => exact .error h

/-- The value of the first step is known in the second, and its faults may be told in other terms. -/
theorem bind_of_ok {x : Except ε α} {f : α → Except ε β} (hx : Ends x P E) (hE : ∀ e, E e → F e)
    (hf : ∀ a, x = .ok a → P a → Ends (f a) T F) : Ends (x >>= f) T F := by
  cases hx with
  | ok h => exact hf _ rfl h
  | error h => exact .error (hE _ h)

theorem mono {x : Except ε α} (hx : Ends x P E) (hP : ∀ a, P a → Q a) (hE : ∀ e, E e → F e) :
    Ends x Q F := by
  cases hx with
  | ok h => exact .ok (hP _ h)
  | error h => exact .error (hE _ h)

theorem of_ok {x : Except ε α} {a : α} (hx : Ends x P E) (h : x = .ok a) : P a := by
  cases hx with
  | ok ha => exact Except.ok.inj h ▸ ha
  | error => cases h

theorem of_error {x : Except ε α} {e : ε} (hx : Ends x P E) (h : x = .error e) : E e := by
  cases hx with
  | ok => cases h
  | error he => exact Except.error.inj h ▸ he

/-- What is known of a result may be added. -/
theorem strengthen {x : Except ε α} (hx : Ends x P E) (hQ : ∀ a, x = .ok a → Q a) : Ends x Q E := by
  cases hx with
  | ok h => exact .ok (hQ _ rfl)
  | error h => exact .error h

theorem foldlM {f : β → α → Except ε β} (hf : ∀ b a, Ends (f b a) (fun _ => True) E) (xs : List α)
    (b : β) : Ends (xs.foldlM f b) (fun _ => True) E := by
  induction xs generalizing b with
  | nil => exact .ok True.intro
  | cons x rest ih =>
    rw [List.foldlM_cons]
    exact (hf b x).bind fun b' _ => ih b'

end Ends

/-! ## Runs of readers that succeed, step by step -/

namespace Reader

variable {σ : Type}

/-- What comes first runs first. -/
theorem run_bind_of_ok {m : StateT σ (Except ε) α} {f : α → StateT σ (Except ε) β} {s s' : σ} {a : α}
    (h : m.run s = .ok (a, s')) : (m >>= f).run s = (f a).run s' := by
  rw [StateT.run_bind, h]
  rfl

theorem run_get (s : σ) : (get : StateT σ (Except ε) σ).run s = .ok (s, s) :=
  rfl

end Reader

/-! ## Failure beside a state -/

/-- From every state with the invariant `I` a computation ends in a result with one property or a fault
with another, and either way it leaves a state with the invariant. -/
def Keeps {σ : Type} (I : σ → Prop) (m : ExceptT ε (StateM σ) α) (P : α → Prop) (E : ε → Prop) :
    Prop :=
  ∀ s, I s → Ends (m.run s).1 P E ∧ I (m.run s).2

namespace Keeps

variable {σ : Type} {I : σ → Prop} {P Q : α → Prop} {T : β → Prop} {E F : ε → Prop}

theorem pure {a : α} (h : P a) : Keeps I (Pure.pure a : ExceptT ε (StateM σ) α) P E :=
  fun _ hs => ⟨.ok h, hs⟩

theorem throw {e : ε} (h : E e) : Keeps I (MonadExcept.throw e : ExceptT ε (StateM σ) α) P E :=
  fun _ hs => ⟨.error h, hs⟩

theorem get : Keeps I (MonadState.get : ExceptT ε (StateM σ) σ) I E :=
  fun _ hs => ⟨.ok hs, hs⟩

theorem modify {f : σ → σ} (h : ∀ s, I s → I (f s)) :
    Keeps I (modifyThe σ f : ExceptT ε (StateM σ) PUnit) (fun _ => True) E :=
  fun s hs => ⟨.ok True.intro, h s hs⟩

theorem bind {m : ExceptT ε (StateM σ) α} {f : α → ExceptT ε (StateM σ) β} (hm : Keeps I m P E)
    (hf : ∀ a, P a → Keeps I (f a) T E) : Keeps I (m >>= f) T E := by
  intro s hs
  have hrun : (m >>= f).run s = ExceptT.bindCont f (m.run s).1 (m.run s).2 := rfl
  obtain ⟨hend, hkept⟩ := hm s hs
  rw [hrun]
  rcases hcase : (m.run s).1 with e | a
  · rw [hcase] at hend
    exact ⟨.error (hend.of_error rfl), hkept⟩
  · rw [hcase] at hend
    exact hf a (hend.of_ok rfl) _ hkept

theorem lift {x : StateM σ α} (h : ∀ s, I s → P (x.run s).1 ∧ I (x.run s).2) :
    Keeps I (ExceptT.lift x : ExceptT ε (StateM σ) α) P E :=
  fun s hs => ⟨.ok (h s hs).1, (h s hs).2⟩

theorem ite {c : Prop} [Decidable c] {m n : ExceptT ε (StateM σ) α} (hm : c → Keeps I m P E)
    (hn : ¬c → Keeps I n P E) : Keeps I (if c then m else n) P E := by
  split
  · exact hm ‹_›
  · exact hn ‹_›

theorem mono {m : ExceptT ε (StateM σ) α} (hm : Keeps I m P E) (hP : ∀ a, P a → Q a)
    (hE : ∀ e, E e → F e) : Keeps I m Q F :=
  fun s hs => ⟨(hm s hs).1.mono hP hE, (hm s hs).2⟩

end Keeps

end Ballpark
