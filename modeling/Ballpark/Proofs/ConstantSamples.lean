import Ballpark.Proofs.ConstantDraws
import Ballpark.Proofs.LookUps
import Ballpark.Proofs.NamesInScope

/-!
# One constant, one sample

However a session is used, all look-ups that reach a constant find the same particles, under whatever name
and in whatever scope they ask for it: the first of them may draw them, and every other one finds what the
session remembers and leaves the session as it is (`Session.constant_sampled_once`). For a look-up of a
constant that is remembered gives what is remembered, one of a constant that is not draws it, which never
fails, and remembers it (`LookUp.Comes`); between one look-up and the next the constants stay as they are
(`Session.LeadsTo`), and so they do when a name is bound (`Session.SparedByBinding`).
-/

namespace Ballpark

open Session Evaluation

variable {R S : Type} [Scalar R] [RandomSource S R]

/-! ## What a look-up comes to -/

/-- A constant can be drawn with the settings of a session, whatever the source gives. -/
def Session.Draws (s : Session R S) (key : String) : Prop :=
  ∃ constant : Constant R, Constant.table.lookup key = some constant ∧ ∀ source : S, ∃ q source',
    (constant.draw s.settings.confidence (.ok s.settings.sampleCount)).run source = (.ok q, source')

theorem Session.Draws.of_settings {s t : Session R S} {key : String} (h : s.Draws key)
    (hsettings : t.settings = s.settings) : t.Draws key := by
  rw [Draws, hsettings]
  exact h

namespace LookUp

/-- What the name is bound to, in the frames or among the variables. -/
def bound? (ℓ : LookUp R S) : Option (Quantity R) :=
  (ℓ.frames ++ [ℓ.session.values]).findSome? (·.get? ℓ.name)

/-- Does the look-up reach the constant with this name of its own? -/
def reaches (key : String) (ℓ : LookUp R S) : Bool :=
  ℓ.bound?.isNone && Constant.ownName ℓ.name == key

/-- What a look-up may come to, and the session that it may leave. -/
inductive Comes (ℓ : LookUp R S) : Except (Fault R) (Option (Quantity R)) → Session R S → Prop
  | bound {q : Quantity R} (h : ℓ.bound? = some q) : Comes ℓ (.ok (some q)) ℓ.session
  | constant {value : Option (Quantity R)} {found : Bindings (Quantity R)} {source : S}
      (h : ℓ.bound? = none) (hvalue : Remembers ℓ.session.settings.confidence
        (.ok ℓ.session.settings.sampleCount) ℓ.name ℓ.session.constants ℓ.session.source value found source) :
      Comes ℓ (.ok value) { ℓ.session with source, constants := found }
  | failed {constant : Constant R} {f : Fault R} {source : S} (h : ℓ.bound? = none)
      (hname : Constant.ofName? ℓ.name = some constant)
      (hnew : ℓ.session.constants.get? (Constant.ownName ℓ.name) = none)
      (hdraw : (constant.draw ℓ.session.settings.confidence (.ok ℓ.session.settings.sampleCount)).run
        ℓ.session.source = (.error f, source)) :
      Comes ℓ (.error f) { ℓ.session with source }

theorem comes (ℓ : LookUp R S) : ℓ.Comes ℓ.result ℓ.after := by
  rw [result, after]
  rcases h : ℓ.bound? with _ | q
  · have hrun : ℓ.run = (constant? ℓ.name : Evaluation R S _).run ℓ.session := run_lookup_of_unbound h
    rw [hrun]
    rcases hconstant : (constant? ℓ.name : Evaluation R S _).run ℓ.session with ⟨f | value, t⟩
    · obtain ⟨constant, source, hname, hnew, hdraw, rfl⟩ := run_constant_eq_error hconstant
      exact .failed h hname hnew hdraw
    · obtain ⟨found, source, hvalue, rfl⟩ := run_constant_eq_ok hconstant
      exact .constant h hvalue
  · have hrun : ℓ.run = (.ok (some q), ℓ.session) := run_lookup_of_bound h
    rw [hrun]
    exact .bound h

namespace Comes

variable {ℓ : LookUp R S} {result : Except (Fault R) (Option (Quantity R))} {t : Session R S}

theorem settings (h : ℓ.Comes result t) : t.settings = ℓ.session.settings := by
  cases h <;> rfl

theorem values (h : ℓ.Comes result t) : t.values = ℓ.session.values := by
  cases h <;> rfl

/-- What is remembered of a constant stays. -/
theorem constants (h : ℓ.Comes result t) {key : String} {q : Quantity R}
    (hq : ℓ.session.constants.get? key = some q) : t.constants.get? key = some q := by
  cases h with
  | bound | failed => exact hq
  | constant _ hvalue => exact hvalue.keeps hq

variable {key : String} (hreaches : ℓ.reaches key = true)
include hreaches

/-- A constant that is remembered is found, and nothing else happens. -/
theorem of_known (h : ℓ.Comes result t) {constant : Constant R}
    (hkey : Constant.table.lookup key = some constant) {q : Quantity R}
    (hq : ℓ.session.constants.get? key = some q) : result = .ok (some q) ∧ t = ℓ.session := by
  rw [reaches, Bool.and_eq_true, Option.isNone_iff_eq_none, beq_iff_eq] at hreaches
  obtain ⟨hunbound, rfl⟩ := hreaches
  cases h with
  | bound h => cases hunbound.symm.trans h
  | failed _ _ hnew => cases hq.symm.trans hnew
  | constant _ hvalue =>
    cases hvalue with
    | unknown hnone => cases hkey.symm.trans hnone
    | known _ hq' =>
      cases hq.symm.trans hq'
      exact ⟨rfl, rfl⟩
    | drawn _ hnew => cases hq.symm.trans hnew

/-- A constant that can be drawn is found, and remembered from then on. -/
theorem of_draws (h : ℓ.Comes result t) (hdraws : ℓ.session.Draws key) :
    ∃ q, result = .ok (some q) ∧ t.constants.get? key = some q := by
  rw [reaches, Bool.and_eq_true, Option.isNone_iff_eq_none, beq_iff_eq] at hreaches
  obtain ⟨hunbound, rfl⟩ := hreaches
  obtain ⟨constant, hkey, hdraws⟩ := hdraws
  cases h with
  | bound h => cases hunbound.symm.trans h
  | failed _ hname _ hdraw =>
    cases hkey.symm.trans hname
    obtain ⟨q, source, hq⟩ := hdraws ℓ.session.source
    cases hdraw.symm.trans hq
  | constant _ hvalue =>
    cases hvalue with
    | unknown hnone => cases hkey.symm.trans hnone
    | @known _ q _ hq => exact ⟨q, rfl, hq⟩
    | @drawn _ q => exact ⟨q, rfl, by rw [Bindings.get?_set, if_pos rfl]⟩

end Comes

end LookUp

namespace Session

/-! ## One look-up after another -/

variable {key : String} {s t : Session R S} {looks : List (LookUp R S)}

/-- **A constant that is remembered is not drawn again**: induction on the look-ups. -/
theorem LeadsTo.of_known (h : LeadsTo s looks t) {constant : Constant R}
    (hkey : Constant.table.lookup key = some constant) {q : Quantity R} (hq : s.constants.get? key = some q) :
    (∀ ℓ ∈ looks, ℓ.reaches key = true → ℓ.result = .ok (some q) ∧ ℓ.after = ℓ.session) ∧
      t.constants.get? key = some q := by
  induction h with
  | stays h => exact ⟨fun _ hℓ => absurd hℓ List.not_mem_nil, by rw [h.constants, hq]⟩
  | @looks s t ℓ rest h _ ih =>
    have hℓ : ℓ.session.constants.get? key = some q := by rw [h.constants, hq]
    obtain ⟨hrest, hend⟩ := ih (ℓ.comes.constants hℓ)
    exact ⟨List.forall_mem_cons.mpr ⟨fun hreaches => ℓ.comes.of_known hreaches hkey hℓ, hrest⟩, hend⟩

/-- **All look-ups that reach a constant find one value**, and only the first may do more than find it:
induction on the look-ups up to the first that reaches the constant. -/
theorem LeadsTo.one_value (h : LeadsTo s looks t) (hdraws : s.Draws key) :
    ∃ q, (∀ ℓ ∈ looks.filter (·.reaches key), ℓ.result = .ok (some q)) ∧
      (∀ ℓ ∈ (looks.filter (·.reaches key)).tail, ℓ.after = ℓ.session) ∧
        (looks.filter (·.reaches key) ≠ [] → t.constants.get? key = some q) := by
  induction h with
  | @stays s t =>
    obtain ⟨constant, -, hdraws⟩ := hdraws
    obtain ⟨q, -⟩ := hdraws s.source
    exact ⟨q, by simp⟩
  | @looks s t ℓ rest h hrest ih =>
    have hℓ := hdraws.of_settings h.settings
    by_cases hreaches : ℓ.reaches key = true
    · obtain ⟨q, hresult, hq⟩ := ℓ.comes.of_draws hreaches hℓ
      obtain ⟨constant, hkey, -⟩ := hdraws
      obtain ⟨hall, hend⟩ := hrest.of_known hkey hq
      rw [List.filter_cons_of_pos hreaches]
      have hfound : ∀ ℓ ∈ rest.filter (·.reaches key),
          ℓ.result = .ok (some q) ∧ ℓ.after = ℓ.session := fun ℓ hmem =>
        hall ℓ (List.mem_filter.mp hmem).1 (List.mem_filter.mp hmem).2
      exact ⟨q, List.forall_mem_cons.mpr ⟨hresult, fun ℓ hmem => (hfound ℓ hmem).1⟩,
        fun ℓ hmem => (hfound ℓ hmem).2, fun _ => hend⟩
    · rw [List.filter_cons_of_neg hreaches]
      exact ih (hℓ.of_settings ℓ.comes.settings)

end Session

/-! ## Calls -/

/-- What is asked of a session, but for starting it again. -/
inductive SessionCall (R : Type) where
  | run (source : String)
  | evaluate (source : String)
  /-- a tree that no program need write -/
  | evaluateTree (node : Node)
  | getVariable (name : String)
  | setVariable (name : String) (value : Quantity R)
  | pinVariable (name : String) (value : Quantity R)
  | clearVariables

namespace Session

/-- The look-ups of statements that are run. -/
def lookUpsOfRun : List Node → Trace R S
  | [] => .none
  | node :: rest =>
    (lookUpsWithin (callLimit + 1) [] node).andThen (runStatement node) fun _ => lookUpsOfRun rest

end Session

namespace SessionCall

/-- The session after a call. -/
def next (call : SessionCall R) (s : Session R S) : Session R S :=
  match call with
  | run source => ((Session.run source).run s).2
  | evaluate source => ((Session.evaluate source).run s).2
  | evaluateTree node => ((Session.evaluateTree node).run s).2
  | getVariable name => ((valueOf? name).run s).2
  | setVariable name value => s.setVariable name value
  | pinVariable name value => s.pinVariable name value
  | clearVariables => s.clearVariables

/-- A look-up that a call makes: of a name that an evaluation comes to, or of a variable that is asked for. -/
inductive Makes : SessionCall R → Session R S → LookUp R S → Prop
  | getVariable {name : String} {s : Session R S} : Makes (.getVariable name) s ⟨[], name, s⟩
  | evaluateTree {node : Node} {s t : Session R S} {limit : Nat} {F : Frames R} {name : String}
      (h : (Point.start node s).Reaches ⟨limit, F, .identifier name, t⟩) :
      Makes (.evaluateTree node) s ⟨F, name, t⟩
  | evaluate {source : String} {node : Node} {s t : Session R S} {limit : Nat} {F : Frames R} {name : String}
      (hnode : Node.ofText source = .ok node)
      (h : (Point.start node s).Reaches ⟨limit, F, .identifier name, t⟩) :
      Makes (.evaluate source) s ⟨F, name, t⟩
  /-- in a statement, if none of those before it ends the run -/
  | run {source : String} {statements : List Node} {k : Nat} {node : Node} {s t : Session R S} {limit : Nat}
      {F : Frames R} {name : String} (hstatements : Node.statementsOfText source = .ok statements)
      (hnode : statements[k]? = some node) (hrecovers : Recovers (statements.take k) s)
      (h : (Point.start node (after (statements.take k) s)).Reaches ⟨limit, F, .identifier name, t⟩) :
      Makes (.run source) s ⟨F, name, t⟩

/-- The look-ups of a call, in their order. -/
def lookUps : SessionCall R → Trace R S
  | run source =>
    match Node.statementsOfText source with
    | .ok statements => lookUpsOfRun statements
    | .error _ => .none
  | evaluate source =>
    match Node.ofText source with
    | .ok node => lookUpsWithin (callLimit + 1) [] node
    | .error _ => .none
  | evaluateTree node => lookUpsWithin (callLimit + 1) [] node
  | getVariable name => fun s => [⟨[], name, s⟩]
  | setVariable .. | pinVariable .. | clearVariables => .none

end SessionCall

namespace Session

/-- The session after some calls. -/
def afterCalls (calls : List (SessionCall R)) (s : Session R S) : Session R S :=
  calls.foldl (fun s call => call.next s) s

/-- A look-up that one of some calls makes, in the session that those before it have left. -/
def MadeBy (calls : List (SessionCall R)) (s : Session R S) (ℓ : LookUp R S) : Prop :=
  ∃ before call rest, calls = before ++ call :: rest ∧ call.Makes (afterCalls before s) ℓ

/-- The look-ups of some calls. -/
def lookUpsOfCalls : List (SessionCall R) → Trace R S
  | [], _ => []
  | call :: rest, s => call.lookUps s ++ lookUpsOfCalls rest (call.next s)

/-- A name that a statement comes to is among the look-ups of the run, if none of the statements before it
ends the run. -/
theorem mem_lookUpsOfRun {statements : List Node} {k : Nat} {node : Node} {s t : Session R S} {limit : Nat}
    {F : Frames R} {name : String} (hnode : statements[k]? = some node)
    (hrecovers : Recovers (statements.take k) s)
    (h : (Point.start node (after (statements.take k) s)).Reaches ⟨limit, F, .identifier name, t⟩) :
    ⟨F, name, t⟩ ∈ lookUpsOfRun statements s := by
  induction statements generalizing k s with
  | nil => cases hnode
  | cons first rest ih =>
    rw [lookUpsOfRun]
    rcases k with _ | k
    · obtain rfl : first = node := Option.some.inj hnode
      exact Trace.subset_andThen h.mem_lookUps
    · obtain ⟨hfirst, hrest⟩ := recovers_cons_iff.mp hrecovers
      rcases run_runStatement first s with ⟨o, -, hrun⟩ | ⟨f, hf, hescapes, -⟩
      · exact Trace.subset_andThen_of_ok hrun (ih hnode hrest h)
      · exact absurd hescapes (hfirst f hf)

/-- **Every look-up that calls make is among theirs.** -/
theorem MadeBy.mem_lookUpsOfCalls {calls : List (SessionCall R)} {s : Session R S} {ℓ : LookUp R S}
    (h : MadeBy calls s ℓ) : ℓ ∈ lookUpsOfCalls calls s := by
  obtain ⟨before, call, rest, rfl, hmakes⟩ := h
  induction before generalizing s with
  | nil =>
    refine List.mem_append_left _ ?_
    cases hmakes with
    | getVariable => exact List.mem_singleton_self _
    | evaluateTree h => exact h.mem_lookUps
    | evaluate hnode h =>
      simp only [SessionCall.lookUps, hnode]
      exact h.mem_lookUps
    | run hstatements hnode hrecovers h =>
      simp only [SessionCall.lookUps, hstatements]
      exact mem_lookUpsOfRun hnode hrecovers h
  | cons first before ih => exact List.mem_append_right _ (ih hmakes)

theorem traced_runStatement (node : Node) :
    Traced (lookUpsWithin (callLimit + 1) [] node) (runStatement node : Evaluation R S _) := by
  intro s
  have hafter : ((runStatement node).run s).2 = next node s := by
    rcases run_runStatement node s with ⟨_, -, hrun⟩ | ⟨_, -, -, hrun⟩ <;> rw [hrun]
  rw [hafter]
  exact traced_evaluateWithin (callLimit + 1) [] node s

/-- Also a statement that fails leaves the session to the next one. -/
theorem traced_runStatements (index : Nat) (statements : List Node) :
    Traced (lookUpsOfRun statements) (runStatements index statements : Evaluation R S _) := by
  induction statements generalizing index with
  | nil => exact fun s => .stays (.refl s)
  | cons node rest ih =>
    rw [lookUpsOfRun, runStatements]
    refine (traced_runStatement node).bind fun outcome => ?_
    exact (ih (index + 1)).bind_quiet fun results s => .stays (.refl s)

/-- The look-ups of a call are what it touches the constants by. -/
theorem leadsTo_next (call : SessionCall R) (s : Session R S) : LeadsTo s (call.lookUps s) (call.next s) := by
  cases call with
  | run source =>
    rw [SessionCall.lookUps, SessionCall.next, run]
    rcases Node.statementsOfText source with f | statements
    · exact .stays (.refl s)
    · exact traced_runStatements 0 statements s
  | evaluate source =>
    rw [SessionCall.lookUps, SessionCall.next, evaluate]
    rcases Node.ofText source with f | node
    · exact .stays (.refl s)
    · exact traced_evaluateWithin (callLimit + 1) [] node s
  | evaluateTree node => exact traced_evaluateWithin (callLimit + 1) [] node s
  | getVariable name => exact .looks (.refl s) (.stays (.refl _))
  | setVariable | pinVariable | clearVariables => exact .stays ⟨rfl, rfl⟩

/-- **The look-ups of calls lead from the first session to the last.** -/
theorem leadsTo_afterCalls (calls : List (SessionCall R)) (s : Session R S) :
    LeadsTo s (lookUpsOfCalls calls s) (afterCalls calls s) := by
  induction calls generalizing s with
  | nil => exact .stays (.refl s)
  | cons call rest ih => exact (leadsTo_next call s).append (ih (call.next s))

/-! ## Names that are bound -/

/-- What binding a name leaves as it is: the constants, and what another name is found as. -/
structure SparedByBinding (R S : Type) [Scalar R] [RandomSource S R] (name other : String) : Prop where
  /-- an assignment of a program sets the variable -/
  assigned (s : Session R S) (value : Quantity R) :
    ∃ v, (assign name value).run s = (.ok v, s.setVariable name v)
  constants (s : Session R S) (value : Quantity R) : (s.setVariable name value).constants = s.constants
  lookup (s : Session R S) (F : Frames R) (value : Quantity R) :
    (lookup? F other).run (s.setVariable name value) =
      Prod.map id (setVariable name value) ((lookup? F other).run s)
  /-- a binding inside an expression, or the parameters of a call -/
  framed (F : Frames R) (frame : Bindings (Quantity R)) (h : frame.get? other = none) :
    (lookup? (frame :: F) other : Evaluation R S _) = lookup? F other

/-- No variable is read for a constant. -/
theorem run_constant_setVariable (s : Session R S) (name other : String) (value : Quantity R) :
    (constant? other).run (s.setVariable name value) =
      Prod.map id (setVariable name value) ((constant? other).run s) := by
  rw [constant?, run_bind_of_ok (run_get s), run_bind_of_ok (run_get _)]
  let draw : Evaluation R S _ := Evaluation.draw (Constant.remember s.settings.confidence
    (.ok s.settings.sampleCount) other s.constants)
  have hdraw' : draw.run (s.setVariable name value) = Prod.map id (setVariable name value) (draw.run s) := rfl
  rcases hdraw : draw.run s with ⟨f | found, t⟩
  · rw [hdraw] at hdraw'
    rw [run_bind_of_error hdraw]
    exact run_bind_of_error hdraw'
  · rw [hdraw] at hdraw'
    rw [run_bind_of_ok hdraw]
    exact run_bind_of_ok hdraw'

theorem sparedByBinding {name other : String} (h : other ≠ name) : SparedByBinding R S name other where
  assigned s value := ⟨_, rfl⟩
  constants s value := rfl
  lookup s F value := by
    have hvalues : (F ++ [(s.setVariable name value).values]).findSome? (·.get? other) =
        (F ++ [s.values]).findSome? (·.get? other) := by
      rw [List.findSome?_append, List.findSome?_append, List.findSome?_singleton, List.findSome?_singleton,
        setVariable, Bindings.get?_set, if_neg h]
    rcases hbound : (F ++ [s.values]).findSome? (·.get? other) with _ | q
    · rw [run_lookup_of_unbound hbound, run_lookup_of_unbound (hvalues.trans hbound),
        run_constant_setVariable]
    · rw [run_lookup_of_bound hbound, run_lookup_of_bound (hvalues.trans hbound)]
      rfl
  framed F frame h := by
    rw [lookup?, lookup?, List.findSome?_cons, h]

/-! ## One sample -/

/-- Every constant of the table can be drawn with settings that have been checked. -/
theorem draws_of_isMass {S : Type} [RandomSource S ℝ] {s : Session ℝ S}
    (hmass : Sampler.IsMass s.settings.confidence) {key : String}
    (hkey : key ∈ (Constant.table (R := ℝ)).map (·.1)) : s.Draws key := by
  rcases hlookup : (Constant.table (R := ℝ)).lookup key with _ | constant
  · obtain ⟨entry, hentry, rfl⟩ := List.mem_map.mp hkey
    simpa using List.lookup_eq_none_iff.mp hlookup entry hentry
  · obtain ⟨before, after, htable, -⟩ := List.lookup_eq_some_iff.mp hlookup
    have hmem : (key, constant) ∈ Constant.table (R := ℝ) := by
      rw [htable]
      exact List.mem_append_right _ List.mem_cons_self
    exact ⟨constant, hlookup, (Constant.draw_total hmem hmass _).exists_run⟩

/-- **One constant, one sample.** However a session is called, all look-ups that reach a constant, in any
scope and under any of its names, find the same value, which the session remembers; only the first of them
may do more than find it, such as to draw. And a name that is bound leaves the constants as they are, and
what the other names of the constant are found as. -/
theorem constant_sampled_once {S : Type} [RandomSource S ℝ] {start : Session ℝ S}
    (hmass : Sampler.IsMass start.settings.confidence) (calls : List (SessionCall ℝ)) {key : String}
    (hkey : key ∈ (Constant.table (R := ℝ)).map (·.1)) :
    let looks := lookUpsOfCalls calls start
    let found := looks.filter (·.reaches key)
    (∀ ℓ, MadeBy calls start ℓ → ℓ ∈ looks) ∧
      (∃ q, (∀ ℓ ∈ found, ℓ.result = .ok (some q)) ∧ (∀ ℓ ∈ found.tail, ℓ.after = ℓ.session) ∧
        (found ≠ [] → (afterCalls calls start).constants.get? key = some q)) ∧
      ∀ name other, other ≠ name → SparedByBinding ℝ S name other :=
  ⟨fun _ => MadeBy.mem_lookUpsOfCalls,
    (leadsTo_afterCalls calls start).one_value (draws_of_isMass hmass hkey), fun _ _ => sparedByBinding⟩

/-- The mass of the sun by two of its names, before and after a variable takes one of them. -/
theorem sun_mass_shared : ∃ q, ∃ calls : List (SessionCall ℝ),
    calls = [.getVariable "M_sun", .setVariable "M_sun" (.plain 2), .getVariable "sun_mass",
      .getVariable "M_sun"] ∧
    ((lookUpsOfCalls calls fresh).filter (·.reaches "M_sun")).map (·.name) = ["M_sun", "sun_mass"] ∧
    ∀ ℓ ∈ (lookUpsOfCalls calls fresh).filter (·.reaches "M_sun"), ℓ.result = .ok (some q) := by
  have hmass : Sampler.IsMass fresh.settings.confidence := by
    constructor <;> norm_num [fresh, ofSource, Written.toScalar]
  have hkey : "M_sun" ∈ (Constant.table (R := ℝ)).map (·.1) := by
    simp [Constant.table]
  obtain ⟨-, ⟨q, hall, -⟩, -⟩ := constant_sampled_once hmass
    [.getVariable "M_sun", .setVariable "M_sun" (.plain 2), .getVariable "sun_mass", .getVariable "M_sun"]
    hkey
  refine ⟨q, _, rfl, ?_, hall⟩
  -- the session with the variable, and that after the second look-up
  let s : Session ℝ (ConstantSource ℝ) :=
    Session.setVariable "M_sun" (.plain 2) (LookUp.after ⟨[], "M_sun", fresh⟩)
  let t : Session ℝ (ConstantSource ℝ) := LookUp.after ⟨[], "sun_mass", s⟩
  have hs : s.values = Bindings.empty.set "M_sun" (.plain 2) :=
    congrArg (·.set "M_sun" (.plain 2)) (LookUp.comes ⟨[], "M_sun", fresh⟩).values
  have ht : t.values = s.values := (LookUp.comes _).values
  have hnone : (Bindings.empty : Bindings (Quantity ℝ)).get? "sun_mass" = none := rfl
  have hother : Constant.ownName "sun_mass" = "M_sun" := by decide
  have hfirst : LookUp.reaches "M_sun" ⟨[], "M_sun", fresh⟩ = true := by decide +kernel
  have hsecond : LookUp.reaches "M_sun" ⟨[], "sun_mass", s⟩ = true := by
    simp [LookUp.reaches, LookUp.bound?, hs, Bindings.get?_set, hnone, hother]
  have hthird : ¬LookUp.reaches "M_sun" ⟨[], "M_sun", t⟩ = true := by
    simp [LookUp.reaches, LookUp.bound?, ht, hs, Bindings.get?_set]
  let looks : List (LookUp ℝ _) := [⟨[], "M_sun", fresh⟩, ⟨[], "sun_mass", s⟩, ⟨[], "M_sun", t⟩]
  show (looks.filter _).map _ = _
  rw [List.filter_cons_of_pos hfirst, List.filter_cons_of_pos hsecond, List.filter_cons_of_neg hthird]
  rfl

end Session

end Ballpark
