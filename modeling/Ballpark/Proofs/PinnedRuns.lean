import Ballpark.Proofs.Steadiness

/-!
# A session beside one with a pin

Two sessions that differ in what depends on a pinned variable and in nothing else (`Pinning.Agree`): they
stand at the same place of the random source, and whatever is no part of the difference has the same value
in both. Steps of evaluation that read nothing of the difference do the same in both (`Pinning.Same`); other
steps may do something else, but leave them like this as long as they draw equally much (`Pinning.Paced`),
and so do steps that draw nothing (`Pinning.Idle`). Exact constants need no draw, so that one session may
know them where the other does not.
-/

namespace Ballpark

variable {R S : Type} {α : Type} [Scalar R]

/-- A session after steps that draw nothing: at most, it knows more exact constants. -/
structure Undisturbed (s t : Session R S) : Prop where
  rest : t = { s with constants := t.constants }
  drawn : SameDrawn s.constants t.constants
  exact : RemembersExactly s.constants → RemembersExactly t.constants

namespace Undisturbed

theorem refl (s : Session R S) : Undisturbed s s :=
  ⟨rfl, fun _ _ _ _ => rfl, id⟩

theorem trans (s t u : Session R S) (h : Undisturbed s t) (h' : Undisturbed t u) : Undisturbed s u where
  rest := by
    rw [h'.rest, h.rest]
  drawn key constant hconstant hdrawn :=
    (h.drawn key constant hconstant hdrawn).trans (h'.drawn key constant hconstant hdrawn)
  exact := h'.exact ∘ h.exact

end Undisturbed

/-! ## Sessions that agree -/

/-- A variable that is pinned in a program, with the functions of the program and with what depends on
the variable. -/
structure Pinning (R : Type) [Scalar R] where
  name : String
  functions : List FunctionDefinition
  /-- what may differ from what it is without the pin -/
  apart : Set Item
  itself : .variable name ∈ apart
  isExpression : ∀ f ∈ functions, f.body.IsExpression
  /-- a constant under the variable's name needs no draw -/
  notDrawn : Constant.NotDrawn R name

namespace Pinning

/-- The functions that a session knows are some of the program's. -/
def Defines (p : Pinning R) (s : Session R S) : Prop :=
  ∀ name f, s.functions.get? name = some f → f ∈ p.functions ∧ f.name = name

/-- A session and one with the pin. -/
structure Agree (p : Pinning R) (s s' : Session R S) : Prop where
  settings : s.settings = s'.settings
  source : s.source = s'.source
  functions : s.functions = s'.functions
  defined : p.Defines s
  values : ∀ name, .variable name ∉ p.apart → s.values.get? name = s'.values.get? name
  present : ∀ name, name ≠ p.name → (s.values.get? name).isSome = (s'.values.get? name).isSome
  pins : ∀ name, name ≠ p.name → s.pins.get? name = none ∧ s'.pins.get? name = none
  units : ∀ label, .label label ∉ p.apart → s.units.get? label = s'.units.get? label
  drawn : SameDrawn s.constants s'.constants
  exact : RemembersExactly s.constants ∧ RemembersExactly s'.constants

/-- What holds inside an expression in the two sessions: the same names are bound, those that are known
to the same values, and a known name that is not bound is a variable that is the same in both. -/
structure Scopes (p : Pinning R) (apart : Set Item) (F F' : Frames R) : Prop where
  present : ∀ name, (F.findSome? (·.get? name)).isSome = (F'.findSome? (·.get? name)).isSome
  values : ∀ name, .variable name ∉ apart → F.findSome? (·.get? name) = F'.findSome? (·.get? name)
  free : ∀ name, .variable name ∉ apart → F.findSome? (·.get? name) = none → .variable name ∉ p.apart
  labels : ∀ label, .label label ∈ p.apart → .label label ∈ apart

variable {p : Pinning R}

theorem Agree.defined' {s s' : Session R S} (h : p.Agree s s') : p.Defines s' := by
  intro name f hf
  rw [← h.functions] at hf
  exact h.defined name f hf

/-- Steps that draw nothing may differ. -/
theorem Agree.undisturbed {s s' t t' : Session R S} (h : p.Agree s s') (hs : Undisturbed s t)
    (hs' : Undisturbed s' t') : p.Agree t t' := by
  have hrest := hs.rest
  have hrest' := hs'.rest
  -- what an undisturbed step keeps, the settings first, and then what is known of the constants
  refine ⟨?_, ?_, ?_, ?_, ?_, ?_, ?_, ?_, ?_, hs.exact h.exact.1, hs'.exact h.exact.2⟩
  · rw [hrest, hrest']
    exact h.settings
  · rw [hrest, hrest']
    exact h.source
  · rw [hrest, hrest']
    exact h.functions
  · rw [hrest]
    exact h.defined
  · rw [hrest, hrest']
    exact h.values
  · rw [hrest, hrest']
    exact h.present
  · rw [hrest, hrest']
    exact h.pins
  · rw [hrest, hrest']
    exact h.units
  · -- constants that are drawn are the only ones that must still be the same
    intro key constant hconstant hdrawn
    rw [← hs.drawn key constant hconstant hdrawn, ← hs'.drawn key constant hconstant hdrawn]
    exact h.drawn key constant hconstant hdrawn

/-- Sessions agree after they have moved on in their sources by the same step. -/
theorem Agree.withSource {s s' : Session R S} (h : p.Agree s s') {t t' : S} (ht : t = t') :
    p.Agree { s with source := t } { s' with source := t' } :=
  ⟨h.settings, ht, h.functions, h.defined, h.values, h.present, h.pins, h.units, h.drawn, h.exact⟩

/-- Sessions agree after they have looked up the same constant. -/
theorem Agree.withConstants {s s' : Session R S} (h : p.Agree s s') {t t' : S} (ht : t = t')
    {found found' : Bindings (Quantity R)} (hdrawn : SameDrawn found found')
    (hexact : RemembersExactly found ∧ RemembersExactly found') :
    p.Agree { s with source := t, constants := found } { s' with source := t', constants := found' } :=
  ⟨h.settings, ht, h.functions, h.defined, h.values, h.present, h.pins, h.units, hdrawn, hexact⟩

/-! ## Steps of evaluation -/

variable (p) in
/-- Two evaluations do the same in the two sessions. -/
def Same (m m' : Evaluation R S α) : Prop :=
  Coupled p.Agree m m' Eq

variable (p) in
/-- Two evaluations draw the same in the two sessions. -/
def Paced (m m' : Evaluation R S α) : Prop :=
  Coupled p.Agree m m' fun _ _ => True

variable (p) in
/-- An evaluation draws nothing, as long as no other functions can be called. -/
def Idle (m : Evaluation R S α) : Prop :=
  Moves (fun s t => p.Defines s → Undisturbed s t) m

namespace Idle

variable {β : Type}

theorem pure (a : α) : p.Idle (Pure.pure a : Evaluation R S α) :=
  Moves.pure (fun s _ => .refl s) a

theorem bind {m : Evaluation R S α} {f : α → Evaluation R S β} (hm : p.Idle m) (hf : ∀ a, p.Idle (f a)) :
    p.Idle (m >>= f) := by
  refine Moves.bind (fun s t u hs ht hdefined => ?_) hm hf
  have hmoved := hs hdefined
  have hdefined' : p.Defines t := by
    rw [hmoved.rest]
    exact hdefined
  exact .trans s t u hmoved (ht hdefined')

/-- The session may be looked into first. -/
theorem get_bind {f : Session R S → Evaluation R S β} (hf : ∀ s, p.Defines s → p.Idle (f s)) :
    p.Idle (get >>= f) := by
  intro s b t hrun hdefined
  rw [Evaluation.run_bind_of_ok (Evaluation.run_get s)] at hrun
  exact hf s hdefined s b t hrun hdefined

theorem ofExcept (e : Except (Fault R) α) : p.Idle (Evaluation.ofExcept e : Evaluation R S α) := by
  intro s a t h _
  obtain ⟨-, rfl⟩ := Evaluation.run_ofExcept_eq_ok.mp h
  exact .refl s

theorem withUnits (f : Bindings (Quantity R) → Except (Fault R) α) :
    p.Idle (Session.withUnits f : Evaluation R S α) :=
  get_bind fun s _ => ofExcept (f s.units)

theorem required {node : Node} {m : Evaluation R S (Option (Quantity R))} (h : p.Idle m) :
    p.Idle (Session.required node m) :=
  fun s _ t hrun => h s _ t (Session.run_required_eq_ok.mp hrun)

theorem some {m : Evaluation R S (Quantity R)} (h : p.Idle m) : p.Idle (some <$> m) := by
  rw [map_eq_pure_bind]
  exact h.bind fun q => pure _

theorem draw {d : Draw R S α} (h : d.Takes id) : p.Idle (Evaluation.draw d) := by
  intro s a t hrun _
  rw [Evaluation.run_draw, Prod.mk.injEq] at hrun
  obtain ⟨ha, rfl⟩ := hrun
  have hsource : (d.run s.source).2 = s.source := h s.source a _ (Prod.ext ha rfl)
  exact (congrArg (fun source => Undisturbed s { s with source }) hsource).mpr (.refl s)

end Idle

theorem Same.paced {m m' : Evaluation R S α} (h : p.Same m m') : p.Paced m m' :=
  h.mono fun _ _ _ => trivial

/-- Evaluations that draw nothing are free to differ. -/
theorem Idle.paced {m m' : Evaluation R S α} (h : p.Idle m) (h' : p.Idle m') : p.Paced m m' :=
  fun s s' hs a t a' t' hrun hrun' =>
    ⟨trivial, hs.undisturbed (h s a t hrun hs.defined) (h' s' a' t' hrun' hs.defined')⟩

section

variable {β : Type} {m m' : Evaluation R S α} {f f' : α → Evaluation R S β}

theorem Same.bind (h : p.Same m m') (hf : ∀ a, p.Same (f a) (f' a)) : p.Same (m >>= f) (m' >>= f') :=
  Coupled.bind h fun a _ ha => ha ▸ hf a

theorem Paced.bind (h : p.Paced m m') (hf : ∀ a a', p.Paced (f a) (f' a')) :
    p.Paced (m >>= f) (m' >>= f') :=
  Coupled.bind h fun a a' _ => hf a a'

end

theorem coupled_ofExcept {e e' : Except (Fault R) α} {P : α → α → Prop}
    (h : ∀ a a', e = .ok a → e' = .ok a' → P a a') :
    Coupled p.Agree (Evaluation.ofExcept e : Evaluation R S α) (Evaluation.ofExcept e') P := by
  intro s s' hs a t a' t' hrun hrun'
  obtain ⟨ha, rfl⟩ := Evaluation.run_ofExcept_eq_ok.mp hrun
  obtain ⟨ha', rfl⟩ := Evaluation.run_ofExcept_eq_ok.mp hrun'
  exact ⟨h a a' ha ha', hs⟩

theorem same_ofExcept (e : Except (Fault R) α) :
    p.Same (Evaluation.ofExcept e : Evaluation R S α) (Evaluation.ofExcept e) :=
  coupled_ofExcept fun _ _ ha ha' => Except.ok.inj (ha.symm.trans ha')

theorem same_withUnits {f f' : Bindings (Quantity R) → Except (Fault R) α}
    (h : ∀ units units' : Bindings (Quantity R),
      (∀ label, .label label ∉ p.apart → units.get? label = units'.get? label) → f units = f' units') :
    p.Same (Session.withUnits f : Evaluation R S α) (Session.withUnits f') := by
  intro s s' hs a t a' t' hrun hrun'
  obtain ⟨ha, rfl⟩ := Session.run_withUnits_eq_ok.mp hrun
  obtain ⟨ha', rfl⟩ := Session.run_withUnits_eq_ok.mp hrun'
  rw [h _ _ hs.units, ha'] at ha
  exact ⟨(Except.ok.inj ha).symm, hs⟩

theorem coupled_draw {d d' : Draw R S α} {P : α → α → Prop}
    (h : ∀ source a t a' t', d.run source = (.ok a, t) → d'.run source = (.ok a', t') → P a a' ∧ t = t') :
    Coupled p.Agree (Evaluation.draw d) (Evaluation.draw d') P := by
  intro s s' hs a t a' t' hrun hrun'
  rw [Evaluation.run_draw, Prod.mk.injEq] at hrun hrun'
  obtain ⟨ha, rfl⟩ := hrun
  obtain ⟨ha', rfl⟩ := hrun'
  rw [← hs.source] at ha' ⊢
  obtain ⟨hP, ht⟩ := h s.source a _ a' _ (Prod.ext ha rfl) (Prod.ext ha' rfl)
  exact ⟨hP, hs.withSource ht⟩

theorem same_draw (d : Draw R S α) : p.Same (Evaluation.draw d) (Evaluation.draw d) := by
  refine coupled_draw fun source a t a' t' hrun hrun' => ?_
  rw [hrun] at hrun'
  cases hrun'
  exact ⟨rfl, rfl⟩

theorem paced_draw {step : S → S} {d d' : Draw R S α} (h : d.Takes step) (h' : d'.Takes step) :
    p.Paced (Evaluation.draw d) (Evaluation.draw d') :=
  coupled_draw fun source a t a' t' hrun hrun' =>
    ⟨trivial, (h source a t hrun).trans (h' source a' t' hrun').symm⟩

theorem coupled_required {node : Node} {m m' : Evaluation R S (Option (Quantity R))}
    {P : Option (Quantity R) → Option (Quantity R) → Prop} (h : Coupled p.Agree m m' P) :
    Coupled p.Agree (Session.required node m) (Session.required node m') fun x y => P (some x) (some y) := by
  intro s s' hs q t q' t' hrun hrun'
  exact h s s' hs _ t _ t' (Session.run_required_eq_ok.mp hrun) (Session.run_required_eq_ok.mp hrun')

theorem Same.required {node : Node} {m m' : Evaluation R S (Option (Quantity R))} (h : p.Same m m') :
    p.Same (Session.required node m) (Session.required node m') :=
  (coupled_required h).mono fun _ _ => Option.some.inj

theorem Paced.required {node : Node} {m m' : Evaluation R S (Option (Quantity R))} (h : p.Paced m m') :
    p.Paced (Session.required node m) (Session.required node m') :=
  coupled_required h

theorem Same.some {m m' : Evaluation R S (Quantity R)} (h : p.Same m m') :
    p.Same (some <$> m) (some <$> m') := by
  rw [map_eq_pure_bind, map_eq_pure_bind]
  exact Coupled.bind h fun q q' hq => .pure (congrArg Option.some hq)

theorem Paced.some {m m' : Evaluation R S (Quantity R)} (h : p.Paced m m') :
    p.Paced (some <$> m) (some <$> m') := by
  rw [map_eq_pure_bind, map_eq_pure_bind]
  exact Coupled.bind h fun _ _ _ => .pure trivial

theorem same_sampleIn (unit : CompoundUnit R) (sampler : Written R → SampleFrame R → Draw R S (Quantity R)) :
    p.Same (Session.sampleIn unit sampler) (Session.sampleIn unit sampler) := by
  refine Coupled.bind .get fun s s' hs => ?_
  rw [Session.frame, Session.frame, hs.settings]
  exact same_draw _

/-- Samplers that draw the same for every particle keep the pace, in whatever units. -/
theorem paced_sampleIn {unit unit' : CompoundUnit R}
    {sampler sampler' : Written R → SampleFrame R → Draw R S (Quantity R)} {step : SampleCount → S → S}
    (h : ∀ confidence frame n, frame.count = .ok n → (sampler confidence frame).Takes (step n))
    (h' : ∀ confidence frame n, frame.count = .ok n → (sampler' confidence frame).Takes (step n)) :
    p.Paced (Session.sampleIn unit sampler) (Session.sampleIn unit' sampler') := by
  refine Coupled.bind .get fun s s' hs => ?_
  rw [Session.frame, Session.frame, hs.settings]
  exact paced_draw (h _ _ _ rfl) (h' _ _ _ rfl)

/-! ## Names -/

variable [RandomSource S R]

theorem idle_constant {name : String} (hname : Constant.NotDrawn R name) :
    p.Idle (Session.constant? name : Evaluation R S _) := by
  intro s value t h _
  obtain ⟨found, source, hremembers, rfl⟩ := Session.run_constant_eq_ok h
  obtain ⟨rfl, hdrawn⟩ := hremembers.of_notDrawn hname
  exact ⟨rfl, hdrawn, hremembers.exact⟩

/-- A constant has the same value in both sessions, and is drawn in both or in none. -/
theorem same_constant (name : String) :
    p.Same (Session.constant? name : Evaluation R S _) (Session.constant? name) := by
  intro s s' hs value t value' t' h h'
  obtain ⟨found, source, hremembers, rfl⟩ := Session.run_constant_eq_ok h
  obtain ⟨found', source', hremembers', rfl⟩ := Session.run_constant_eq_ok h'
  rw [← hs.settings, ← hs.source] at hremembers'
  have hexact : RemembersExactly found ∧ RemembersExactly found' :=
    ⟨hremembers.exact hs.exact.1, hremembers'.exact hs.exact.2⟩
  by_cases hname : Constant.NotDrawn R name
  · obtain ⟨hsource, hdrawn⟩ := hremembers.of_notDrawn hname
    obtain ⟨hsource', hdrawn'⟩ := hremembers'.of_notDrawn hname
    have hfound : SameDrawn found found' := fun key constant hlookup hconstant => by
      rw [← hdrawn key constant hlookup hconstant, ← hdrawn' key constant hlookup hconstant]
      exact hs.drawn key constant hlookup hconstant
    -- an exact constant: found anew or remembered, it is what the table says
    refine ⟨?_, hs.withConstants (hsource.trans hsource'.symm) hfound hexact⟩
    have hsome := hremembers.isSome.trans hremembers'.isSome.symm
    rcases hvalue : value with _ | q <;> rcases hvalue' : value' with _ | q'
    · rfl
    · simp [hvalue, hvalue'] at hsome
    · simp [hvalue, hvalue'] at hsome
    · obtain ⟨x, unit, hlookup, hq⟩ := hremembers.value_of_notDrawn hname hs.exact.1 hvalue
      obtain ⟨y, unit', hlookup', hq'⟩ := hremembers'.value_of_notDrawn hname hs.exact.2 hvalue'
      cases hlookup.symm.trans hlookup'
      cases hq.symm.trans hq'
      rfl
  · -- a drawn constant: what one session remembers under its key the other remembers too
    obtain ⟨constant, hconstant⟩ := not_forall.mp hname
    obtain ⟨hlookup, hdrawn⟩ := Classical.not_imp.mp hconstant
    rw [Bool.not_eq_true] at hdrawn
    have hkey := hs.drawn (Constant.ownName name) constant hlookup hdrawn
    obtain ⟨hvalue, hsource, hfound⟩ := hremembers.of_drawn hremembers' hkey hs.drawn
    exact ⟨hvalue, hs.withConstants hsource hfound hexact⟩

theorem idle_valueOf {name : String} (hname : Constant.NotDrawn R name) :
    p.Idle (Session.valueOf? name : Evaluation R S _) := by
  refine Idle.get_bind fun s _ => ?_
  split
  · exact .pure _
  · exact idle_constant hname

/-- A name that is known has the same value in both sessions. -/
theorem same_valueOf {name : String} (hname : .variable name ∉ p.apart) :
    p.Same (Session.valueOf? name : Evaluation R S _) (Session.valueOf? name) := by
  refine Coupled.bind .get fun s s' hs => ?_
  rw [hs.values name hname]
  split
  · exact .pure rfl
  · exact same_constant name

/-- The values of the pinned variable are of no matter for what is drawn. -/
theorem paced_valueOf (name : String) :
    p.Paced (Session.valueOf? name : Evaluation R S _) (Session.valueOf? name) := by
  by_cases hpinned : name = p.name
  · have hidle : p.Idle (Session.valueOf? name : Evaluation R S _) :=
      idle_valueOf (hpinned ▸ p.notDrawn)
    exact hidle.paced hidle
  · refine Coupled.bind .get fun s s' hs => ?_
    have hpresent := hs.present name hpinned
    rcases hvalue : s.values.get? name with _ | q <;> rcases hvalue' : s'.values.get? name with _ | q'
    · exact (same_constant name).paced
    · simp [hvalue, hvalue'] at hpresent
    · simp [hvalue, hvalue'] at hpresent
    · exact .pure trivial

section

variable {apart : Set Item} {F F' : Frames R}

theorem Scopes.same_lookup (h : p.Scopes apart F F') {name : String} (hname : .variable name ∉ apart) :
    p.Same (Session.lookup? F name : Evaluation R S _) (Session.lookup? F' name) := by
  rw [Session.lookup?, Session.lookup?, ← h.values name hname]
  split
  · exact .pure rfl
  · rename_i hvalue
    exact same_valueOf (h.free name hname hvalue)

theorem Scopes.paced_lookup (h : p.Scopes apart F F') (name : String) :
    p.Paced (Session.lookup? F name : Evaluation R S _) (Session.lookup? F' name) := by
  have hpresent := h.present name
  rw [Session.lookup?, Session.lookup?]
  split <;> split
  · exact .pure trivial
  · simp_all
  · simp_all
  · exact paced_valueOf name

theorem idle_lookup (F : Frames R) {name : String} (hname : Constant.NotDrawn R name) :
    p.Idle (Session.lookup? F name : Evaluation R S _) := by
  rw [Session.lookup?]
  split
  · exact .pure _
  · exact idle_valueOf hname

/-- The value of a name that has been looked up: its own, or else one of the unit of this name. -/
def named (F : Frames R) (name : String) (found : Option (Quantity R)) : Evaluation R S (Quantity R) := do
  match found with
  | some q => return q
  | none =>
    match Quantity.ofText (.scalar (Scalar.ofNat 1 : R)) name with
    | .error (.unknownUnit ..) =>
      let candidates := F.flatMap (·.names) ++ (← get).allNames
      throw (.undefinedVariable name (Suggestion.suggest name candidates))
    | result => Evaluation.ofExcept result

theorem identifier_eq (F : Frames R) (name : String) :
    (Session.identifier F name : Evaluation R S _) = Session.lookup? F name >>= named F name := by
  unfold Session.identifier named
  rfl

omit [RandomSource S R] in
theorem idle_named (F : Frames R) (name : String) (found : Option (Quantity R)) :
    p.Idle (named F name found : Evaluation R S _) := by
  rw [named.eq_def]
  split
  · exact .pure _
  · split
    · exact Idle.get_bind fun s _ => Moves.throw _
    · exact .ofExcept _

omit [RandomSource S R] in
theorem same_named (name : String) (found : Option (Quantity R)) :
    p.Same (named F name found : Evaluation R S _) (named F' name found) := by
  rw [named.eq_def, named.eq_def]
  split
  · exact .pure rfl
  · split
    · exact Coupled.bind .get fun s s' hs => .throw _
    · exact same_ofExcept _

theorem Scopes.same_identifier (h : p.Scopes apart F F') {name : String} (hname : .variable name ∉ apart) :
    p.Same (Session.identifier F name : Evaluation R S _) (Session.identifier F' name) := by
  rw [identifier_eq, identifier_eq]
  exact (h.same_lookup hname).bind (same_named name)

theorem Scopes.paced_identifier (h : p.Scopes apart F F') (name : String) :
    p.Paced (Session.identifier F name : Evaluation R S _) (Session.identifier F' name) := by
  rw [identifier_eq, identifier_eq]
  exact (h.paced_lookup name).bind fun _ _ => (idle_named F name _).paced (idle_named F' name _)

theorem idle_identifier (F : Frames R) {name : String} (hname : Constant.NotDrawn R name) :
    p.Idle (Session.identifier F name : Evaluation R S _) := by
  rw [identifier_eq]
  exact (idle_lookup F hname).bind (idle_named F name)

/-! ## Calls -/

theorem same_callBuiltin (name : String) (arguments : List (Quantity R)) :
    p.Same (Session.callBuiltin name arguments : Evaluation R S _) (Session.callBuiltin name arguments) := by
  refine Coupled.bind .get fun s s' hs => ?_
  rw [Session.frame, Session.frame, hs.settings]
  split
  · exact .throw _
  · split
    · exact .throw _
    · exact same_draw _

/-- A builtin function that is no distribution draws nothing. -/
theorem idle_callBuiltin {name : String} (hname : Distribution.ofName? name = none)
    (arguments : List (Quantity R)) : p.Idle (Session.callBuiltin name arguments : Evaluation R S _) := by
  refine Idle.get_bind fun s _ => ?_
  rw [Builtin.ofName?, hname]
  split
  · exact Moves.throw _
  · rename_i builtin hbuiltin
    obtain ⟨f, -, rfl⟩ := Option.map_eq_some_iff.mp hbuiltin
    split
    · exact Moves.throw _
    · rename_i call hcall
      obtain ⟨e, -, rfl⟩ := Option.map_eq_some_iff.mp hcall
      exact Idle.draw (Draw.Takes.adapt (Draw.Takes.ofExcept e) _)

theorem paced_callBuiltin {name : String}
    (hname : ∀ d, Distribution.ofName? name = some d → d.isPaced = true)
    (arguments arguments' : List (Quantity R)) :
    p.Paced (Session.callBuiltin name arguments : Evaluation R S _) (Session.callBuiltin name arguments') := by
  rcases hdistribution : Distribution.ofName? name with _ | d
  · exact (idle_callBuiltin hdistribution _).paced (idle_callBuiltin hdistribution _)
  · have hpaced := hname d hdistribution
    refine Coupled.bind .get fun s s' hs => ?_
    rw [Session.frame, Session.frame, hs.settings, Builtin.ofName?, hdistribution]
    simp only
    split
    · exact .throw _
    · rename_i call hcall
      split
      · exact .throw_right _
      · rename_i call' hcall'
        exact paced_draw (Draw.Takes.adapt (Distribution.takes_pace hpaced rfl hcall) _)
          (Draw.Takes.adapt (Distribution.takes_pace hpaced rfl hcall') _)

end

end Pinning

end Ballpark
