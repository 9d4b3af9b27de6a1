import Ballpark.Proofs.PinnedRuns

/-!
# Expressions beside a pin

An expression in a session and in one with a pin. If it mentions nothing of the difference, it does the same
in both (`Pinning.evaluateWithin_same`); if it is quiet, it draws nothing (`Pinning.evaluateWithin_idle`);
and if it is steady, it draws the same in both, whatever its values are (`Pinning.evaluateWithin_paced`).
Each of the three goes by induction on the calls that may still be opened, and below one call by induction
on the tree.
-/

namespace Ballpark

namespace Node.Avoids

variable {R : Type} [Scalar R] {functions : List FunctionDefinition} {items : Set Item} {n m : Node}

theorem operand (h : n.Avoids R functions items) (hm : m ∈ n.operands) : m.Avoids R functions items :=
  fun item hitem => h item (.operand hm hitem)

theorem inner {name : String} {bound inner : Node} (h : (letBinding name bound inner).Avoids R functions items) :
    inner.Avoids R functions (items \ {.variable name}) :=
  fun item hitem hmem => h item (.inner hitem hmem.2) hmem.1

theorem body {name : String} {arguments : List Node} (h : (call name arguments).Avoids R functions items)
    {function : FunctionDefinition} (hfunction : function ∈ functions) (hname : function.name = name) :
    function.body.Avoids R functions (items \ {item | ∃ p ∈ function.parameters, item = .variable p}) :=
  fun item hitem hmem => h item
    (.body hfunction hname hitem fun p hp heq => hmem.2 ⟨p, hp, heq⟩) hmem.1

end Node.Avoids

theorem Node.Covers.of_avoids {R : Type} [Scalar R] {functions : List FunctionDefinition}
    {apart : Set Item} {function : FunctionDefinition} {arguments : List Node}
    (h : ∀ n ∈ arguments, n.Avoids R functions apart) : Node.Covers R functions apart function arguments
      (apart \ {item | ∃ p ∈ function.parameters, item = .variable p}) where
  outside _ hitem := or_iff_not_imp_right.mpr fun hparameter => ⟨hitem, hparameter⟩
  parameters e he := .inl (h e.2 (List.of_mem_zip he).2)

namespace Pinning

variable {R S : Type} [Scalar R] {p : Pinning R}

/-! ## Names inside expressions -/

/-- One frame more on both sides. -/
theorem Scopes.cons {apart inner : Set Item} {F F' : Frames R} (h : p.Scopes apart F F')
    {frame frame' : Bindings (Quantity R)}
    (hpresent : ∀ name, (frame.get? name).isSome = (frame'.get? name).isSome)
    (hvalues : ∀ name, .variable name ∉ inner → frame.get? name = frame'.get? name)
    (houter : ∀ name, .variable name ∉ inner → frame.get? name = none → .variable name ∉ apart)
    (hlabels : ∀ label, .label label ∈ apart → .label label ∈ inner) :
    p.Scopes inner (frame :: F) (frame' :: F') where
  present name := by
    have hframe := hpresent name
    rw [List.findSome?_cons, List.findSome?_cons]
    -- the new frames have the same names, so a name is found in both or in neither
    rcases hget : frame.get? name with _ | q <;> rcases hget' : frame'.get? name with _ | q'
    · exact h.present name
    · simp [hget, hget'] at hframe
    · simp [hget, hget'] at hframe
    · rfl
  values name hname := by
    rw [List.findSome?_cons, List.findSome?_cons, ← hvalues name hname]
    rcases hget : frame.get? name with _ | q
    · exact h.values name (houter name hname hget)
    · rfl
  free name hname hnone := by
    rw [List.findSome?_cons] at hnone
    rcases hget : frame.get? name with _ | q
    · rw [hget] at hnone
      exact h.free name (houter name hname hget) hnone
    · rw [hget] at hnone
      cases hnone
  labels label hlabel := hlabels label (h.labels label hlabel)

/-- The arguments of a call in the two sessions: those that are known are the same. -/
inductive Passed (known : Node → Prop) : List Node → List (Quantity R) → List (Quantity R) → Prop
  | nil : Passed known [] [] []
  | cons {n : Node} {nodes : List Node} {q q' : Quantity R} {qs qs' : List (Quantity R)}
      (hq : known n → q = q') (h : Passed known nodes qs qs') : Passed known (n :: nodes) (q :: qs) (q' :: qs')

namespace Passed

variable {known : Node → Prop} {nodes : List Node} {qs qs' : List (Quantity R)}

omit [Scalar R] in
theorem zip (h : Passed known nodes qs qs') {names : List String} {name : String}
    (hknown : ∀ e ∈ names.zip nodes, e.1 = name → known e.2) :
    List.Forall₂ (fun e e' => e.1 = e'.1 ∧ (e.1 = name → e.2 = e'.2)) (names.zip qs) (names.zip qs') := by
  induction h generalizing names with
  | nil => simp
  | cons hq _ ih =>
    rcases names with _ | ⟨other, names⟩
    · exact .nil
    · rw [List.zip_cons_cons, List.forall_mem_cons] at hknown
      exact .cons ⟨rfl, fun heq => hq (hknown.1 heq)⟩ (ih hknown.2)

omit [Scalar R] in
theorem eq_of_known (h : Passed (fun _ => True) nodes qs qs') : qs = qs' := by
  induction h with
  | nil => rfl
  | cons hq _ ih => rw [hq trivial, ih]

omit [Scalar R] in
theorem mono {known' : Node → Prop} (h : Passed known nodes qs qs') (himp : ∀ n, known' n → known n) :
    Passed known' nodes qs qs' := by
  induction h with
  | nil => exact .nil
  | cons hq _ ih => exact .cons (fun hn => hq (himp _ hn)) ih

end Passed

omit [Scalar R] in
theorem callFrame_eq_ok {function : FunctionDefinition} {qs : List (Quantity R)} {frame : Bindings (Quantity R)}
    (h : Session.callFrame function qs = .ok frame) :
    qs.length = function.parameters.length ∧ frame = .ofList (function.parameters.zip qs) := by
  rw [Session.callFrame] at h
  split at h
  · exact ⟨‹_›, (Except.ok.inj h).symm⟩
  · cases h

omit [Scalar R] in
/-- The frame of a call binds the parameters and nothing else. -/
theorem isSome_callFrame {function : FunctionDefinition} {qs : List (Quantity R)}
    {frame : Bindings (Quantity R)} (h : Session.callFrame function qs = .ok frame) (name : String) :
    (frame.get? name).isSome = true ↔ name ∈ function.parameters := by
  obtain ⟨hlength, rfl⟩ := callFrame_eq_ok h
  have hnames : (function.parameters.zip qs).map Prod.fst = function.parameters :=
    List.map_fst_zip hlength.ge
  constructor
  · intro hsome
    by_contra hmem
    rw [← hnames] at hmem
    rw [Bindings.ofList, Bindings.get?_foldl_set_of_not_mem hmem] at hsome
    cases hsome
  · intro hmem
    rw [← hnames] at hmem
    exact Bindings.isSome_get?_ofList hmem

theorem Scopes.call {apart inner : Set Item} {F F' : Frames R} (h : p.Scopes apart F F')
    {function : FunctionDefinition} {nodes : List Node} {qs qs' : List (Quantity R)}
    (hpassed : Passed (Node.Avoids R p.functions apart) nodes qs qs')
    (hcovers : Node.Covers R p.functions apart function nodes inner) {frame frame' : Bindings (Quantity R)}
    (hframe : Session.callFrame function qs = .ok frame)
    (hframe' : Session.callFrame function qs' = .ok frame') :
    p.Scopes inner (frame :: F) (frame' :: F') := by
  refine h.cons (fun name => ?_) (fun name hname => ?_) (fun name hname hnone => ?_) fun label hlabel => ?_
  · exact Bool.eq_iff_iff.mpr ((isSome_callFrame hframe name).trans (isSome_callFrame hframe' name).symm)
  · obtain ⟨-, rfl⟩ := callFrame_eq_ok hframe
    obtain ⟨-, rfl⟩ := callFrame_eq_ok hframe'
    refine Bindings.get?_foldl_set_congr (hpassed.zip fun e he heq => ?_) rfl
    exact (hcovers.parameters e he).resolve_right (heq ▸ hname)
  · intro hapart
    rcases hcovers.outside _ hapart with hinner | ⟨parameter, hparameter, heq⟩
    · exact hname hinner
    · cases heq
      have hsome := (isSome_callFrame hframe name).mpr hparameter
      rw [hnone] at hsome
      cases hsome
  · rcases hcovers.outside _ hlabel with hinner | ⟨parameter, -, heq⟩
    · exact hinner
    · cases heq

/-- A binding hides the variable of its name, and is as well known as its value. -/
theorem Scopes.bind {apart : Set Item} {F F' : Frames R} (h : p.Scopes apart F F') (name : String)
    {q q' : Quantity R} {inner : Set Item} (hvalue : .variable name ∉ inner → q = q')
    (houter : ∀ item ∈ apart, item ∈ inner ∨ item = .variable name) :
    p.Scopes inner (.ofList [(name, q)] :: F) (.ofList [(name, q')] :: F') := by
  have hget : ∀ (r : Quantity R) other, (Bindings.ofList [(name, r)]).get? other =
      if other = name then some r else none := fun r other => Bindings.get?_set .empty name r other
  refine h.cons (fun other => ?_) (fun other hother => ?_) (fun other hother hnone => ?_) fun label hlabel => ?_
  · rw [hget, hget]
    split <;> rfl
  · rw [hget, hget]
    split
    · rename_i heq
      rw [hvalue (heq ▸ hother)]
    · rfl
  · intro hapart
    rcases houter _ hapart with hinner | heq
    · exact hother hinner
    · cases heq
      rw [hget, if_pos rfl] at hnone
      cases hnone
  · exact (houter _ hlabel).resolve_right fun heq => nomatch heq

/-- Units that are known have the same definitions. -/
theorem Scopes.units {apart : Set Item} {F F' : Frames R} (h : p.Scopes apart F F') {n : Node}
    (hn : n.Avoids R p.functions apart) {units units' : Bindings (Quantity R)}
    (hunits : ∀ label, .label label ∉ p.apart → units.get? label = units'.get? label) (text : String)
    (htext : n.unitText? = some text) (label : String) (hlabel : UnitMentions R label text) :
    units.get? label = units'.get? label :=
  hunits label fun hapart => hn _ (.unit htext hlabel) (h.labels label hapart)

/-! ## Expressions that are known -/

section

variable [RandomSource S R]

variable (p) in
/-- Known expressions have the same values in both sessions. -/
def SameBodies (body : TreeEvaluation R S) : Prop :=
  ∀ {n : Node} {apart : Set Item} {F F' : Frames R}, n.IsExpression → n.Avoids R p.functions apart →
    p.Scopes apart F F' → p.Same (body F n) (body F' n)

theorem coupled_evaluateAll {body : TreeEvaluation R S} {F F' : Frames R} {known : Node → Prop}
    {nodes : List Node} (h : ∀ n ∈ nodes, Coupled p.Agree (Session.evaluateNode body F n)
      (Session.evaluateNode body F' n) fun r r' => known n → r = r') :
    Coupled p.Agree (Session.evaluateAll body F nodes) (Session.evaluateAll body F' nodes)
      (Passed known nodes) := by
  induction nodes with
  | nil =>
    rw [Session.evaluateAll, Session.evaluateAll]
    exact .pure .nil
  | cons n rest ih =>
    obtain ⟨hn, hrest⟩ := List.forall_mem_cons.mp h
    rw [Session.evaluateAll, Session.evaluateAll]
    refine Coupled.bind (coupled_required hn) fun q q' hq => ?_
    refine Coupled.bind (ih hrest) fun qs qs' hqs => ?_
    exact .pure (.cons (fun hknown => Option.some.inj (hq hknown)) hqs)

/-- A call in both sessions: of a builtin function, or of the same function of the program. -/
theorem coupled_callFunction {body : TreeEvaluation R S} {F F' : Frames R} {name : String}
    {qs qs' : List (Quantity R)} {P : Quantity R → Quantity R → Prop}
    (hbuiltin : Coupled p.Agree (Session.callBuiltin name qs : Evaluation R S _)
      (Session.callBuiltin name qs') P)
    (hdefined : ∀ f ∈ p.functions, f.name = name → ∀ frame frame', Session.callFrame f qs = .ok frame →
      Session.callFrame f qs' = .ok frame' →
      Coupled p.Agree (body (frame :: F) f.body) (body (frame' :: F') f.body) fun r r' =>
        ∀ q q', r = some q → r' = some q' → P q q') :
    Coupled p.Agree (Session.callFunction body F name qs) (Session.callFunction body F' name qs') P := by
  refine Coupled.bind .get fun s s' hs => ?_
  rw [← hs.functions]
  split
  · rename_i function hfunction
    obtain ⟨hmem, hname⟩ := hs.defined name function hfunction
    have hframe : Coupled p.Agree (Evaluation.ofExcept (Session.callFrame function qs) : Evaluation R S _)
        (Evaluation.ofExcept (Session.callFrame function qs')) fun frame frame' =>
          Session.callFrame function qs = .ok frame ∧ Session.callFrame function qs' = .ok frame' :=
      coupled_ofExcept fun _ _ => And.intro
    refine Coupled.bind hframe fun frame frame' hframes => ?_
    refine (coupled_required (hdefined function hmem hname frame frame' hframes.1 hframes.2)).mono ?_
    exact fun q q' h => h q q' rfl rfl
  · exact hbuiltin

/-- A known expression with known operands has the same value in both sessions. -/
theorem same_operation {body : TreeEvaluation R S} (hbody : p.SameBodies body) {n : Node}
    (hn : n.isOperation = true) {apart : Set Item} {F F' : Frames R}
    (havoid : n.Avoids R p.functions apart) (h : p.Scopes apart F F')
    (ih : ∀ m ∈ n.operands, p.Same (Session.evaluateNode body F m) (Session.evaluateNode body F' m)) :
    p.Same (Session.evaluateNode body F n) (Session.evaluateNode body F' n) := by
  have hoperand : ∀ m ∈ n.operands, p.Same (Session.required m (Session.evaluateNode body F m))
      (Session.required m (Session.evaluateNode body F' m)) := fun m hm => (ih m hm).required
  have hall : ∀ nodes : List Node, (∀ m ∈ nodes, m ∈ n.operands) →
      Coupled p.Agree (Session.evaluateAll body F nodes) (Session.evaluateAll body F' nodes)
        (Passed (fun _ => True) nodes) := fun nodes hnodes =>
    coupled_evaluateAll fun m hm => (ih m (hnodes m hm)).mono fun _ _ hr _ => hr
  cases n with
  | number x unit =>
    rw [Session.evaluateNode, Session.evaluateNode]
    exact (same_withUnits fun units units' hunits => Session.literal_congr (h.units havoid hunits) _).some
  | sigFig text unit =>
    rw [Session.evaluateNode, Session.evaluateNode]
    refine ((same_ofExcept _).bind fun bounds => (same_sampleIn _ _).bind fun q => ?_).some
    exact same_withUnits fun units units' hunits => Session.inUnit_congr (h.units havoid hunits) _
  | identifier name =>
    rw [Session.evaluateNode, Session.evaluateNode]
    exact (h.same_identifier (havoid _ .name)).some
  | unit text =>
    rw [Session.evaluateNode, Session.evaluateNode]
    exact (same_withUnits fun units units' hunits =>
      Session.unitQuantity_congr (h.units havoid hunits text rfl)).some
  | binary op left right =>
    rw [Session.evaluateNode, Session.evaluateNode]
    refine (hoperand left List.mem_cons_self).bind fun x => ?_
    refine (hoperand right (List.mem_cons_of_mem _ List.mem_cons_self)).bind fun y => ?_
    exact (same_ofExcept _).some
  | unary op operand =>
    rw [Session.evaluateNode, Session.evaluateNode]
    refine (hoperand operand List.mem_cons_self).bind fun x => ?_
    exact (same_ofExcept _).some
  | range left right unit =>
    rw [Session.evaluateNode, Session.evaluateNode]
    refine (hoperand left List.mem_cons_self).bind fun x => ?_
    refine (hoperand right (List.mem_cons_of_mem _ List.mem_cons_self)).bind fun y => ?_
    refine Same.bind (same_withUnits fun units units' hunits => ?_) fun b => (same_sampleIn _ _).some
    exact Session.strictBounds_congr (h.units havoid hunits) _ _ _
  | uniformRange left right unit =>
    rw [Session.evaluateNode, Session.evaluateNode]
    refine (hoperand left List.mem_cons_self).bind fun x => ?_
    refine (hoperand right (List.mem_cons_of_mem _ List.mem_cons_self)).bind fun y => ?_
    refine Same.bind (same_withUnits fun units units' hunits => ?_) fun b => (same_sampleIn _ _).some
    exact Session.looseBounds_congr (h.units havoid hunits) _ _ _
  | normalRange mean spread unit =>
    rw [Session.evaluateNode, Session.evaluateNode]
    refine (hoperand mean List.mem_cons_self).bind fun x => ?_
    refine (hoperand spread (List.mem_cons_of_mem _ List.mem_cons_self)).bind fun y => ?_
    refine Same.bind (same_withUnits fun units units' hunits => ?_) fun b => (same_sampleIn _ _).some
    exact Session.looseBounds_congr (h.units havoid hunits) _ _ _
  | betaOf successes total =>
    rw [Session.evaluateNode, Session.evaluateNode]
    refine (hoperand successes List.mem_cons_self).bind fun x => ?_
    refine (hoperand total (List.mem_cons_of_mem _ List.mem_cons_self)).bind fun y => ?_
    exact (same_sampleIn _ _).some
  | betaAgainst pro contra =>
    rw [Session.evaluateNode, Session.evaluateNode]
    refine (hoperand pro List.mem_cons_self).bind fun x => ?_
    refine (hoperand contra (List.mem_cons_of_mem _ List.mem_cons_self)).bind fun y => ?_
    exact (same_sampleIn _ _).some
  | weightedSet values weights unit =>
    rw [Session.evaluateNode, Session.evaluateNode]
    have hvalues : ∀ m ∈ values, m ∈ (Node.weightedSet values weights unit).operands := fun m =>
      List.mem_append_left weights
    have hweights : ∀ m ∈ weights, m ∈ (Node.weightedSet values weights unit).operands := fun m =>
      List.mem_append_right values
    refine Coupled.bind (hall values hvalues) fun xs xs' hxs => ?_
    refine Coupled.bind (hall weights hweights) fun ws ws' hws => ?_
    cases hxs.eq_of_known
    cases hws.eq_of_known
    refine (same_sampleIn _ _).bind fun q => ?_
    exact (same_withUnits fun units units' hunits => Session.inUnit_congr (h.units havoid hunits) _).some
  | percentTwiddle x =>
    rw [Session.evaluateNode, Session.evaluateNode]
    exact (same_sampleIn _ _).some
  | decibelTwiddle x =>
    rw [Session.evaluateNode, Session.evaluateNode]
    exact (same_sampleIn _ _).some
  | conversion expression target =>
    rw [Session.evaluateNode, Session.evaluateNode]
    refine (hoperand expression List.mem_cons_self).bind fun x => ?_
    exact (same_withUnits fun units units' hunits => Session.convertTo_congr
      (hunits _ fun hapart => havoid _ .target (h.labels _ hapart)) _).some
  | call name arguments =>
    rw [Session.evaluateNode, Session.evaluateNode]
    refine Coupled.bind (hall arguments fun _ => id) fun qs qs' hqs => ?_
    cases hqs.eq_of_known
    refine Same.some (coupled_callFunction (same_callBuiltin name qs) ?_)
    -- inside the call what the arguments stand for is known
    intro f hf hname frame frame' hframe hframe'
    have hscopes := h.call (hqs.mono fun _ _ => trivial)
      (Node.Covers.of_avoids fun m hm => havoid.operand hm) hframe hframe'
    refine (hbody (p.isExpression f hf) (havoid.body hf hname) hscopes).mono fun r r' hr q q' hq hq' => ?_
    exact Option.some.inj (hq.symm.trans (hr.trans hq'))
  | ifExpression condition yes no =>
    rw [Session.evaluateNode, Session.evaluateNode]
    refine (hoperand condition List.mem_cons_self).bind fun c => ?_
    have hyes := hoperand yes (List.mem_cons_of_mem _ List.mem_cons_self)
    have hno := hoperand no (List.mem_cons_of_mem _ (List.mem_cons_of_mem _ List.mem_cons_self))
    split
    · split
      · exact hyes.some
      · exact hno.some
    · exact hyes.bind fun x => hno.bind fun y => (same_ofExcept _).some
  | letBinding | assignment | unitDefinition | functionDefinition | program | foreign => cases hn

theorem evaluateNode_same {body : TreeEvaluation R S} (hbody : p.SameBodies body) :
    p.SameBodies (Session.evaluateNode body) := by
  intro n apart F F' hn havoid h
  induction hn generalizing apart F F' with
  | operation hn _ ih =>
    exact same_operation hbody hn havoid h fun m hm => ih m hm (havoid.operand hm) h
  | letBinding _ _ ihbound ihinner =>
    rename_i name bound inner _ _
    rw [Session.evaluateNode, Session.evaluateNode]
    refine Coupled.bind (ihbound (havoid.operand List.mem_cons_self) h).required fun q q' hq => ?_
    have hinner : p.Scopes (apart \ {.variable name}) (.ofList [(name, q)] :: F)
        (.ofList [(name, q')] :: F') :=
      h.bind name (fun _ => hq) fun item hitem => or_iff_not_imp_right.mpr fun hne => ⟨hitem, hne⟩
    exact (ihinner havoid.inner hinner).required.some

/-- Induction on the calls that may still be opened. -/
theorem evaluateWithin_same (limit : Nat) : p.SameBodies (Session.evaluateWithin limit : TreeEvaluation R S) := by
  induction limit with
  | zero => exact fun _ _ _ => .throw _
  | succ limit ih => exact evaluateNode_same ih

/-! ## Expressions that draw nothing -/

variable (p) in
/-- Quiet expressions draw nothing. -/
def IdleBodies (quiet : Set FunctionDefinition) (body : TreeEvaluation R S) : Prop :=
  ∀ {n : Node} (F : Frames R), n.Quiet R p.functions quiet → p.Idle (body F n)

theorem idle_evaluateAll {body : TreeEvaluation R S} {F : Frames R} {nodes : List Node}
    (h : ∀ n ∈ nodes, p.Idle (Session.evaluateNode body F n)) :
    p.Idle (Session.evaluateAll body F nodes) := by
  induction nodes with
  | nil =>
    rw [Session.evaluateAll]
    exact .pure _
  | cons n rest ih =>
    obtain ⟨hn, hrest⟩ := List.forall_mem_cons.mp h
    rw [Session.evaluateAll]
    exact hn.required.bind fun q => (ih hrest).bind fun qs => .pure _

omit [RandomSource S R] in
/-- A choice between two evaluations that draw nothing. -/
theorem idle_choice {yes no : Evaluation R S (Quantity R)} (hyes : p.Idle yes) (hno : p.Idle no)
    (condition : Quantity R) : p.Idle (match condition.value with
      | .scalar x => if Session.isTrue x then some <$> yes else some <$> no
      | .sample s => do
        let x ← yes
        let y ← no
        some <$> Evaluation.ofExcept (Session.choose s x y)) := by
  split
  · split
    · exact hyes.some
    · exact hno.some
  · exact hyes.bind fun x => hno.bind fun y => (Idle.ofExcept _).some

/-- A quiet operation with operands that draw nothing. -/
theorem idle_plain {body : TreeEvaluation R S} {n : Node} (hn : n.isPlain = true) {F : Frames R}
    (ih : ∀ m ∈ n.operands, p.Idle (Session.evaluateNode body F m)) :
    p.Idle (Session.evaluateNode body F n) := by
  have hoperand : ∀ m ∈ n.operands, p.Idle (Session.required m (Session.evaluateNode body F m)) :=
    fun m hm => (ih m hm).required
  cases n with
  | number x unit =>
    rw [Session.evaluateNode]
    exact (Idle.withUnits _).some
  | unit text =>
    rw [Session.evaluateNode]
    exact (Idle.withUnits _).some
  | binary op left right =>
    rw [Session.evaluateNode]
    refine (hoperand left List.mem_cons_self).bind fun x => ?_
    refine (hoperand right (List.mem_cons_of_mem _ List.mem_cons_self)).bind fun y => ?_
    exact (Idle.ofExcept _).some
  | unary op operand =>
    rw [Session.evaluateNode]
    exact (hoperand operand List.mem_cons_self).bind fun x => (Idle.ofExcept _).some
  | conversion expression target =>
    rw [Session.evaluateNode]
    exact (hoperand expression List.mem_cons_self).bind fun x => (Idle.withUnits _).some
  | ifExpression condition yes no =>
    rw [Session.evaluateNode]
    have hyes := hoperand yes (List.mem_cons_of_mem _ List.mem_cons_self)
    have hno := hoperand no (List.mem_cons_of_mem _ (List.mem_cons_of_mem _ List.mem_cons_self))
    exact (hoperand condition List.mem_cons_self).bind (idle_choice hyes hno)
  | _ => cases hn

theorem idle_callFunction {body : TreeEvaluation R S} {quiet : Set FunctionDefinition}
    (hbody : p.IdleBodies quiet body) (hquiet : ∀ f ∈ quiet, f.body.Quiet R p.functions quiet)
    {name : String} (hbuiltin : Distribution.ofName? name = none)
    (hdefined : ∀ f ∈ p.functions, f.name = name → f ∈ quiet) (F : Frames R) (qs : List (Quantity R)) :
    p.Idle (Session.callFunction body F name qs) := by
  refine Idle.get_bind fun s hs => ?_
  split
  · rename_i function hfunction
    obtain ⟨hmem, hname⟩ := hs name function hfunction
    exact (Idle.ofExcept _).bind fun frame => (hbody _ (hquiet _ (hdefined _ hmem hname))).required
  · exact idle_callBuiltin hbuiltin qs

theorem evaluateNode_idle {body : TreeEvaluation R S} {quiet : Set FunctionDefinition}
    (hquiet : ∀ f ∈ quiet, f.body.Quiet R p.functions quiet) (hbody : p.IdleBodies quiet body) :
    p.IdleBodies quiet (Session.evaluateNode body) := by
  intro n F hn
  induction hn generalizing F with
  | plain hn _ ih => exact idle_plain hn fun m hm => ih m hm F
  | name hname =>
    rw [Session.evaluateNode]
    exact (idle_identifier F hname).some
  | letBinding _ _ ihbound ihinner =>
    rw [Session.evaluateNode]
    exact (ihbound F).required.bind fun q => (ihinner _).required.some
  | call _ hbuiltin hdefined ih =>
    rw [Session.evaluateNode]
    refine (idle_evaluateAll fun m hm => ih m hm F).bind fun qs => ?_
    exact (idle_callFunction hbody hquiet hbuiltin hdefined F qs).some

theorem evaluateWithin_idle {quiet : Set FunctionDefinition}
    (hquiet : ∀ f ∈ quiet, f.body.Quiet R p.functions quiet) (limit : Nat) :
    p.IdleBodies quiet (Session.evaluateWithin limit : TreeEvaluation R S) := by
  induction limit with
  | zero => exact fun _ _ => Moves.throw _
  | succ limit ih => exact evaluateNode_idle hquiet ih

/-! ## Expressions that draw the same -/

variable (p) in
/-- Steady expressions draw the same in both sessions. -/
def PacedBodies (signature : Node.Signature) (body : TreeEvaluation R S) : Prop :=
  ∀ {n : Node} {apart : Set Item} {F F' : Frames R}, n.IsExpression →
    n.Steady R p.functions signature apart → p.Scopes apart F F' → p.Paced (body F n) (body F' n)

omit [RandomSource S R] in
/-- A range draws the same whatever its bounds are. -/
theorem paced_between {low low' high high' : Evaluation R S (Quantity R)} (hlow : p.Paced low low')
    (hhigh : p.Paced high high')
    {bounds : Quantity R → Quantity R → Bindings (Quantity R) → Except (Fault R) (Session.Bounds R)}
    {sampler : Session.Bounds R → Written R → SampleFrame R → Draw R S (Quantity R)}
    {step : SampleCount → S → S}
    (hstep : ∀ b confidence frame n, frame.count = .ok n → (sampler b confidence frame).Takes (step n)) :
    p.Paced
      (low >>= fun x => high >>= fun y => Session.withUnits (bounds x y) >>= fun b =>
        some <$> Session.sampleIn b.unit (sampler b))
      (low' >>= fun x => high' >>= fun y => Session.withUnits (bounds x y) >>= fun b =>
        some <$> Session.sampleIn b.unit (sampler b)) := by
  refine hlow.bind fun x x' => hhigh.bind fun y y' => ?_
  refine ((Idle.withUnits _).paced (Idle.withUnits _)).bind fun b b' => Paced.some ?_
  exact paced_sampleIn (hstep b) (hstep b')

/-- A paced operation with operands that draw the same. -/
theorem paced_operation {body : TreeEvaluation R S} {n : Node} (hn : n.isPaced = true)
    {apart : Set Item} {F F' : Frames R} (h : p.Scopes apart F F')
    (ih : ∀ m ∈ n.operands, p.Paced (Session.evaluateNode body F m) (Session.evaluateNode body F' m)) :
    p.Paced (Session.evaluateNode body F n) (Session.evaluateNode body F' n) := by
  have hoperand : ∀ m ∈ n.operands, p.Paced (Session.required m (Session.evaluateNode body F m))
      (Session.required m (Session.evaluateNode body F' m)) := fun m hm => (ih m hm).required
  have hall : ∀ nodes : List Node, (∀ m ∈ nodes, m ∈ n.operands) →
      Coupled p.Agree (Session.evaluateAll body F nodes) (Session.evaluateAll body F' nodes)
        (Passed (fun _ => False) nodes) := fun nodes hnodes =>
    coupled_evaluateAll fun m hm => (ih m (hnodes m hm)).mono fun _ _ _ => False.elim
  have hpure : ∀ e e' : Except (Fault R) (Quantity R), p.Paced (some <$> Evaluation.ofExcept e)
      (some <$> Evaluation.ofExcept e' : Evaluation R S _) := fun e e' =>
    ((Idle.ofExcept e).paced (Idle.ofExcept e')).some
  have hunits : ∀ f f' : Bindings (Quantity R) → Except (Fault R) (Quantity R),
      p.Paced (some <$> Session.withUnits f) (some <$> Session.withUnits f' : Evaluation R S _) :=
    fun f f' => ((Idle.withUnits f).paced (Idle.withUnits f')).some
  cases n with
  | number x unit =>
    rw [Session.evaluateNode, Session.evaluateNode]
    exact hunits _ _
  | sigFig text unit =>
    rw [Session.evaluateNode, Session.evaluateNode]
    refine Paced.some (Coupled.bind (same_ofExcept _).paced fun bounds bounds' _ => ?_)
    refine Coupled.bind (paced_sampleIn (fun _ _ _ hcount => Sampler.uniform_takes hcount _ _)
      fun _ _ _ hcount => Sampler.uniform_takes hcount _ _) fun q q' _ => ?_
    exact (Idle.withUnits _).paced (Idle.withUnits _)
  | identifier name =>
    rw [Session.evaluateNode, Session.evaluateNode]
    exact (h.paced_identifier name).some
  | unit text =>
    rw [Session.evaluateNode, Session.evaluateNode]
    exact hunits _ _
  | binary op left right =>
    rw [Session.evaluateNode, Session.evaluateNode]
    refine (hoperand left List.mem_cons_self).bind fun x x' => ?_
    refine (hoperand right (List.mem_cons_of_mem _ List.mem_cons_self)).bind fun y y' => ?_
    exact hpure _ _
  | unary op operand =>
    rw [Session.evaluateNode, Session.evaluateNode]
    exact (hoperand operand List.mem_cons_self).bind fun x x' => hpure _ _
  | range left right unit =>
    rw [Session.evaluateNode, Session.evaluateNode]
    exact paced_between (hoperand left List.mem_cons_self)
      (hoperand right (List.mem_cons_of_mem _ List.mem_cons_self))
      fun _ _ _ _ hcount => Sampler.interval_takes hcount _ _ _
  | uniformRange left right unit =>
    rw [Session.evaluateNode, Session.evaluateNode]
    exact paced_between (hoperand left List.mem_cons_self)
      (hoperand right (List.mem_cons_of_mem _ List.mem_cons_self))
      fun _ _ _ _ hcount => Sampler.uniform_takes hcount _ _
  | normalRange mean spread unit =>
    rw [Session.evaluateNode, Session.evaluateNode]
    exact paced_between (hoperand mean List.mem_cons_self)
      (hoperand spread (List.mem_cons_of_mem _ List.mem_cons_self))
      fun _ _ _ _ hcount => Sampler.normal_takes hcount _ _ _
  | weightedSet values weights unit =>
    rw [Session.evaluateNode, Session.evaluateNode]
    have hvalues : ∀ m ∈ values, m ∈ (Node.weightedSet values weights unit).operands := fun m =>
      List.mem_append_left weights
    have hweights : ∀ m ∈ weights, m ∈ (Node.weightedSet values weights unit).operands := fun m =>
      List.mem_append_right values
    refine Coupled.bind (hall values hvalues) fun xs xs' _ => ?_
    refine Coupled.bind (hall weights hweights) fun ws ws' _ => ?_
    refine Coupled.bind (paced_sampleIn (fun _ _ _ hcount => Sampler.weighted_takes hcount _ _)
      fun _ _ _ hcount => Sampler.weighted_takes hcount _ _) fun q q' _ => ?_
    exact hunits _ _
  | percentTwiddle x =>
    rw [Session.evaluateNode, Session.evaluateNode]
    exact (same_sampleIn _ _).paced.some
  | decibelTwiddle x =>
    rw [Session.evaluateNode, Session.evaluateNode]
    exact (same_sampleIn _ _).paced.some
  | conversion expression target =>
    rw [Session.evaluateNode, Session.evaluateNode]
    exact (hoperand expression List.mem_cons_self).bind fun x x' => hunits _ _
  | _ => cases hn

/-- A call with arguments that draw the same, of a function whose body does. -/
theorem paced_call {body : TreeEvaluation R S} {signature : Node.Signature}
    (hsound : signature.Sound R p.functions) (hbody : p.PacedBodies signature body) {name : String}
    {arguments : List Node} {apart : Set Item} {F F' : Frames R} (h : p.Scopes apart F F')
    (harguments : ∀ m ∈ arguments, Coupled p.Agree (Session.evaluateNode body F m)
      (Session.evaluateNode body F' m) fun r r' => m.Avoids R p.functions apart → r = r')
    (hbuiltin : ∀ d, Distribution.ofName? name = some d → d.isPaced = true)
    (hdefined : ∀ f ∈ p.functions, f.name = name →
      ∃ inner, (f, inner) ∈ signature.steady ∧ Node.Covers R p.functions apart f arguments inner) :
    p.Paced (Session.evaluateNode body F (.call name arguments))
      (Session.evaluateNode body F' (.call name arguments)) := by
  rw [Session.evaluateNode, Session.evaluateNode]
  refine Coupled.bind (coupled_evaluateAll harguments) fun qs qs' hqs => Paced.some ?_
  refine coupled_callFunction (paced_callBuiltin hbuiltin qs qs') ?_
  intro f hf hname frame frame' hframe hframe'
  obtain ⟨inner, hinner, hcovers⟩ := hdefined f hf hname
  have hscopes : p.Scopes inner (frame :: F) (frame' :: F') := h.call hqs hcovers hframe hframe'
  refine (hbody (p.isExpression f hf) (hsound.steady _ hinner) hscopes).mono ?_
  exact fun _ _ _ _ _ _ _ => trivial

theorem evaluateNode_paced {body : TreeEvaluation R S} {signature : Node.Signature}
    (hsound : signature.Sound R p.functions) (hsame : p.SameBodies body)
    (hidle : p.IdleBodies signature.quiet body) (hbody : p.PacedBodies signature body) :
    p.PacedBodies signature (Session.evaluateNode body) := by
  intro n apart F F' hn hsteady h
  have hknown : ∀ {m : Node} {apart : Set Item} {F F' : Frames R}, m.IsExpression →
      m.Avoids R p.functions apart → p.Scopes apart F F' →
      p.Same (Session.evaluateNode body F m) (Session.evaluateNode body F' m) :=
    evaluateNode_same hsame
  induction hsteady generalizing F F' with
  | avoids havoid => exact (hknown hn havoid h).paced
  | paced hpaced _ ih => exact paced_operation hpaced h fun m hm => ih m hm (hn.operand hm) h
  | letBinding _ _ ihbound ihinner =>
    rename_i apart name bound inner _ _
    rw [Session.evaluateNode, Session.evaluateNode]
    refine Coupled.bind (ihbound (hn.operand List.mem_cons_self) h).required fun q q' _ => ?_
    have hinner : p.Scopes (insert (.variable name) apart) (.ofList [(name, q)] :: F)
        (.ofList [(name, q')] :: F') :=
      h.bind name (fun hname => absurd (Set.mem_insert _ _) hname) fun item hitem =>
        .inl (Set.mem_insert_of_mem _ hitem)
    exact (ihinner hn.inner hinner).required.some
  | letKnown hbound _ ihinner =>
    rename_i apart name bound inner _
    rw [Session.evaluateNode, Session.evaluateNode]
    refine Coupled.bind (hknown (hn.operand List.mem_cons_self) hbound h).required fun q q' hq => ?_
    have hinner : p.Scopes (apart \ {.variable name}) (.ofList [(name, q)] :: F)
        (.ofList [(name, q')] :: F') :=
      h.bind name (fun _ => hq) fun item hitem => or_iff_not_imp_right.mpr fun hne => ⟨hitem, hne⟩
    exact (ihinner hn.inner hinner).required.some
  | choice hcondition _ _ ihyes ihno =>
    rename_i apart condition yes no _ _
    rw [Session.evaluateNode, Session.evaluateNode]
    refine Coupled.bind (hknown (hn.operand List.mem_cons_self) hcondition h).required fun c c' hc => ?_
    cases hc
    have hyes : p.Paced (Session.required yes (Session.evaluateNode body F yes))
        (Session.required yes (Session.evaluateNode body F' yes)) :=
      (ihyes (hn.operand (List.mem_cons_of_mem _ List.mem_cons_self)) h).required
    have hno : p.Paced (Session.required no (Session.evaluateNode body F no))
        (Session.required no (Session.evaluateNode body F' no)) :=
      (ihno (hn.operand (List.mem_cons_of_mem _ (List.mem_cons_of_mem _ List.mem_cons_self))) h).required
    split
    · split
      · exact hyes.some
      · exact hno.some
    · exact hyes.bind fun x x' => hno.bind fun y y' => ((Idle.ofExcept _).paced (Idle.ofExcept _)).some
  | quietChoice _ hyes hno ihcondition =>
    rw [Session.evaluateNode, Session.evaluateNode]
    refine Coupled.bind (ihcondition (hn.operand List.mem_cons_self) h).required fun c c' _ => ?_
    -- the branches that are taken may differ, for they draw nothing
    have hbranch : ∀ {m : Node} (F : Frames R), m.Quiet R p.functions signature.quiet →
        p.Idle (Session.required m (Session.evaluateNode body F m)) := fun F hm =>
      (evaluateNode_idle hsound.quiet hidle F hm).required
    exact (idle_choice (hbranch F hyes) (hbranch F hno) c).paced
      (idle_choice (hbranch F' hyes) (hbranch F' hno) c')
  | call _ hbuiltin hdefined iharguments =>
    rename_i apart name arguments _
    refine paced_call hsound hbody h (fun m hm => ?_) hbuiltin hdefined
    by_cases havoid : m.Avoids R p.functions apart
    · exact (hknown (hn.operand hm) havoid h).mono fun _ _ hr _ => hr
    · exact (iharguments m hm (hn.operand hm) h).mono fun _ _ _ hm => absurd hm havoid

theorem evaluateWithin_paced {signature : Node.Signature} (hsound : signature.Sound R p.functions)
    (limit : Nat) : p.PacedBodies signature (Session.evaluateWithin limit : TreeEvaluation R S) := by
  induction limit with
  | zero => exact fun _ _ _ => .throw _
  | succ limit ih =>
    exact evaluateNode_paced hsound (evaluateWithin_same limit) (evaluateWithin_idle hsound.quiet limit) ih

end

end Pinning

end Ballpark
