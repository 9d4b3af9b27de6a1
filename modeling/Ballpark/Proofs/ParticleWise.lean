import Ballpark.Proofs.Particle
import Ballpark.Proofs.Bindings
import Ballpark.Proofs.SessionUnit
import Ballpark.Proofs.Tracking

/-!
# Evaluation particle by particle

An expression that draws nothing is evaluated particle by particle: evaluate it with uncertain
variables and look at one particle of the result, or put that particle of every variable in its place
and evaluate with exact numbers; both come to the same (`Session.evaluateTree_particle`). The two
evaluations take different paths. An exact condition evaluates one branch and an uncertain one both,
and units are merged and rescaled on either side as they come.

The expressions meant are those of `ParticleWise`: literals without units of the program's own, bound
names, arithmetic and comparisons by order, whole powers, conversions, `let` and `if`, four builtin
functions, and calls of functions of the program whose bodies are again of this kind.

The proof shows that the evaluation with uncertain variables tracks the one with exact numbers, by
induction on the expression and, for calls, on the number of calls that may still be opened.
-/

namespace Ballpark

open Quantity

namespace Session

/-- The session in which every variable has its particle at a place for its value. -/
def atParticle {R S : Type} (i : Nat) (s : Session R S) : Session R S :=
  { s with values := s.values.map (Quantity.atParticle i) }

end Session

/-! ## The expressions -/

/-- A unit that is none, or has no factor that the program defines. -/
def Foreign {R : Type} [Scalar R] (units : Bindings (Quantity R)) (unit : Option String) : Prop :=
  ∀ text, Session.written? unit = some text → ∀ (u : CompoundUnit R) (scale : R),
    CompoundUnit.ofText text = .ok (u, scale) → ∀ t ∈ u.terms, units.get? t.unit.base = none

/-- The builtin functions that act on particles one by one. -/
def particleWiseBuiltins : List (String × MathFunction) :=
  [("abs", .keepingUnit .abs), ("min", .minimum), ("max", .maximum), ("clamp", .clamp)]

/-- The expressions that are evaluated particle by particle in a session, where `names` are bound around
them and functions of the program from among `callable` may be called. Variables of the session that
they mention are exact or have `n` particles. -/
inductive ParticleWise {S : Type} (n : Nat) (s : Session ℝ S) (callable : List String) :
    List String → Node → Prop
  | number {names : List String} {x : Decimal} {unit : Option String} (h : Foreign s.units unit) :
    ParticleWise n s callable names (.number x unit)
  /-- a name that is bound around the expression, or a variable -/
  | identifier {names : List String} {name : String}
    (h : name ∈ names ∨ ∃ q, s.values.get? name = some q ∧ q.Sound ∧ q.value.Fits n) :
    ParticleWise n s callable names (.identifier name)
  | arithmetic {names : List String} {op : BinaryOperator} {left right : Node}
    (hop : op ∈ [BinaryOperator.add, .subtract, .multiply, .divide])
    (hleft : ParticleWise n s callable names left) (hright : ParticleWise n s callable names right) :
    ParticleWise n s callable names (.binary op left right)
  | compare {names : List String} {c : Comparison} {left right : Node}
    (hc : c ∈ [Comparison.greater, .less, .greaterEqual, .lessEqual])
    (hleft : ParticleWise n s callable names left) (hright : ParticleWise n s callable names right) :
    ParticleWise n s callable names (.binary (.compare c) left right)
  /-- a power whose exponent is a whole number -/
  | power {names : List String} {left : Node} {x : Decimal} {k : Int} (hx : x.value = k)
    (hleft : ParticleWise n s callable names left) :
    ParticleWise n s callable names (.binary .power left (.number x none))
  | negativePower {names : List String} {left : Node} {x : Decimal} {k : Int} (hx : x.value = k)
    (hleft : ParticleWise n s callable names left) :
    ParticleWise n s callable names (.binary .power left (.unary .negate (.number x none)))
  | negate {names : List String} {operand : Node}
    (hoperand : ParticleWise n s callable names operand) :
    ParticleWise n s callable names (.unary .negate operand)
  /-- a conversion to base units, or to a unit that the program does not define -/
  | conversion {names : List String} {expression : Node} {target : String}
    (htarget : Text.trimText target = "SI" ∨ s.units.get? (Text.trimText target) = none)
    (hexpression : ParticleWise n s callable names expression) :
    ParticleWise n s callable names (.conversion expression target)
  | letBinding {names : List String} {name : String} {bound body : Node}
    (hbound : ParticleWise n s callable names bound)
    (hbody : ParticleWise n s callable (name :: names) body) :
    ParticleWise n s callable names (.letBinding name bound body)
  | ifExpression {names : List String} {condition yes no : Node}
    (hcondition : ParticleWise n s callable names condition)
    (hyes : ParticleWise n s callable names yes) (hno : ParticleWise n s callable names no) :
    ParticleWise n s callable names (.ifExpression condition yes no)
  /-- a call of a builtin function that no function of the program hides -/
  | builtin {names : List String} {name : String} {arguments : List Node}
    (hname : name ∈ particleWiseBuiltins.map (·.1)) (hfree : s.functions.get? name = none)
    (harguments : ∀ node ∈ arguments, ParticleWise n s callable names node) :
    ParticleWise n s callable names (.call name arguments)
  | call {names : List String} {name : String} {arguments : List Node} (hname : name ∈ callable)
    (hdefined : (s.functions.get? name).isSome = true)
    (harguments : ∀ node ∈ arguments, ParticleWise n s callable names node) :
    ParticleWise n s callable names (.call name arguments)

namespace Session

variable {S : Type} [RandomSource S ℝ] {n i : Nat} {s : Session ℝ S}

/-- Related values that both are there. -/
abbrev TracksParticle (n i : Nat) (s : Session ℝ S) (m m' : Evaluation ℝ S (Option (Quantity ℝ))) :
    Prop :=
  Tracks s (s.atParticle i) (Tracks.Both (IsParticle n i)) m m'

/-! ## Literals and names -/

theorem literal_foreign {units : Bindings (Quantity ℝ)} {x : ℝ} {unit : Option String}
    (hforeign : Foreign units unit) {q : Quantity ℝ} (h : literal units x unit = .ok q) :
    q.Sound ∧ q.isScalar = true := by
  rw [literal] at h
  rcases hunit : written? unit with _ | text
  · rw [hunit] at h
    cases h
    exact ⟨sound_plain x, rfl⟩
  · rw [hunit] at h
    rcases htext : CompoundUnit.ofText (R := ℝ) text with e | ⟨u, scale⟩
    · simp only [unitQuantity, htext, bind, Except.bind] at h
      cases h
    · obtain ⟨hknown, hcanonical⟩ := CompoundUnit.ofText_sound htext
      have hquantity := unitQuantity_foreign htext (hforeign text hunit u scale htext)
      simp only [hquantity, bind, Except.bind, pure, Except.pure] at h
      cases h
      exact ⟨⟨hknown, hcanonical⟩, rfl⟩

/-- Frames that bind the same names to quantities and their particles, `names` among them. -/
structure FramesTrack (n i : Nat) (names : List String) (F f : Frames ℝ) : Prop where
  lookup : ∀ name, (F.findSome? (·.get? name) = none ∧ f.findSome? (·.get? name) = none) ∨
    ∃ q p, F.findSome? (·.get? name) = some q ∧ f.findSome? (·.get? name) = some p ∧
      IsParticle n i q p
  bound : ∀ name ∈ names, (F.findSome? (·.get? name)).isSome = true

theorem FramesTrack.nil : FramesTrack n i [] [] [] :=
  ⟨fun _ => .inl ⟨rfl, rfl⟩, fun _ h => absurd h List.not_mem_nil⟩

theorem FramesTrack.cons {names names' : List String} {F f : Frames ℝ} (h : FramesTrack n i names F f)
    {B b : Bindings (Quantity ℝ)} (hB : Bindings.Related (IsParticle n i) B b)
    (hnames : ∀ name ∈ names', (B.get? name).isSome = true ∨ name ∈ names) :
    FramesTrack n i names' (B :: F) (b :: f) := by
  refine ⟨fun name => ?_, fun name hname => ?_⟩
  · rw [List.findSome?_cons, List.findSome?_cons]
    rcases hB.get? name with ⟨hnone, hnone'⟩ | ⟨q, p, hq, hp, hqp⟩
    · rw [hnone, hnone']
      exact h.lookup name
    · rw [hq, hp]
      exact .inr ⟨q, p, rfl, rfl, hqp⟩
  · rw [List.findSome?_cons]
    rcases hB' : B.get? name with _ | q
    · have hrest := (hnames name hname).resolve_left (by rw [hB']; decide)
      exact h.bound name hrest
    · rfl

theorem valueOf?_tracks {name : String} {q : Quantity ℝ} (hq : s.values.get? name = some q)
    (hsound : q.Sound) (hfits : q.value.Fits n) :
    TracksParticle n i s (valueOf? name) (valueOf? name) := by
  refine .bind .get fun t t' h => ?_
  obtain ⟨rfl, rfl⟩ := h
  have hpart : (t.atParticle i).values.get? name = some (q.atParticle i) := by
    rw [atParticle, Bindings.get?_map, hq]
    rfl
  rw [hq, hpart]
  exact .pure ⟨q, _, rfl, rfl, isParticle_atParticle hsound hfits⟩

theorem identifier_tracks {names : List String} {F f : Frames ℝ} (hframes : FramesTrack n i names F f)
    {name : String}
    (h : name ∈ names ∨ ∃ q, s.values.get? name = some q ∧ q.Sound ∧ q.value.Fits n) :
    Tracks s (s.atParticle i) (IsParticle n i) (identifier F name) (identifier f name) := by
  have hlookup : TracksParticle n i s (lookup? F name) (lookup? f name) := by
    rw [lookup?, lookup?]
    rcases hframes.lookup name with ⟨hnone, hnone'⟩ | ⟨q, p, hq, hp, hqp⟩
    · rw [hnone, hnone']
      rcases h with h | ⟨q, hq, hsound, hfits⟩
      · have hbound := hframes.bound name h
        rw [hnone] at hbound
        cases hbound
      · exact valueOf?_tracks hq hsound hfits
    · rw [hq, hp]
      exact .pure ⟨q, p, rfl, rfl, hqp⟩
  refine hlookup.bind fun a b hab => ?_
  obtain ⟨q, p, rfl, rfl, hqp⟩ := hab
  exact .pure hqp

/-! ## Operators -/

theorem negate_particle {q p r : Quantity ℝ} (h : IsParticle n i q p) (hr : unary .negate q = .ok r) :
    ∃ z, unary .negate p = .ok z ∧ IsParticle n i r z :=
  actsOn_negate.particle h hr

theorem arithmetic_particle (hi : i < n) {op : BinaryOperator}
    (hop : op ∈ [BinaryOperator.add, .subtract, .multiply, .divide]) {a b x y r : Quantity ℝ}
    (ha : IsParticle n i a x) (hb : IsParticle n i b y) (hr : binary op a b = .ok r) :
    ∃ z, binary op x y = .ok z ∧ IsParticle n i r z := by
  simp only [List.mem_cons, List.not_mem_nil, or_false] at hop
  rcases hop with rfl | rfl | rfl | rfl
  · exact actsOnBoth_add.particle hi ha hb hr
  · exact actsOnBoth_subtract.particle hi ha hb hr
  · exact actsOnBoth_multiply.particle hi ha hb hr
  · exact actsOnBoth_divide.particle hi ha hb hr

theorem compare_particle (hi : i < n) {c : Comparison}
    (hc : c ∈ [Comparison.greater, .less, .greaterEqual, .lessEqual]) {a b x y r : Quantity ℝ}
    (ha : IsParticle n i a x) (hb : IsParticle n i b y) (hr : binary (.compare c) a b = .ok r) :
    ∃ z, binary (.compare c) x y = .ok z ∧ IsParticle n i r z := by
  simp only [List.mem_cons, List.not_mem_nil, or_false] at hc
  rcases hc with rfl | rfl | rfl | rfl
  all_goals exact (actsOnBoth_compare rfl).particle hi ha hb hr

/-- A power with a plain whole number as exponent. -/
theorem binary_power (q : Quantity ℝ) (k : ℝ) : binary .power q (.plain k) = q.pow k := by
  have hplain : (CompoundUnit.one : CompoundUnit ℝ).isPlain = true :=
    CompoundUnit.isPlain_iff_dimension.mpr rfl
  simp [binary, plain, hasUnit, hplain]

theorem power_particle {k : Int} {q p r : Quantity ℝ} (h : IsParticle n i q p)
    (hr : binary .power q (.plain k) = .ok r) :
    ∃ z, binary .power p (.plain k) = .ok z ∧ IsParticle n i r z := by
  rw [binary_power] at hr ⊢
  exact (actsOn_pow k).particle h hr

theorem convertTo_particle {target : String} {units : Bindings (Quantity ℝ)}
    (htarget : Text.trimText target = "SI" ∨ units.get? (Text.trimText target) = none)
    {q p r : Quantity ℝ} (h : IsParticle n i q p) (hr : convertTo units q target = .ok r) :
    ∃ z, convertTo units p target = .ok z ∧ IsParticle n i r z := by
  rw [Session.convertTo] at hr ⊢
  by_cases hbase : (Text.trimText target == "SI") = true
  · rw [if_pos hbase] at hr ⊢
    exact actsOn_toBase.particle h hr
  · have hnone := htarget.resolve_left fun heq => hbase (beq_iff_eq.mpr heq)
    rw [if_neg hbase, hnone] at hr ⊢
    simp only [Quantity.convertTo] at hr ⊢
    rcases htext : CompoundUnit.ofText (R := ℝ) (Text.trimText target) with e | ⟨u, scale⟩
    · rw [htext] at hr
      cases hr
    · rw [htext] at hr
      obtain ⟨hknown, hcanonical⟩ := CompoundUnit.ofText_sound htext
      exact (actsOn_convert hknown hcanonical).particle h hr

/-- A condition holds of a quantity where it holds of what the quantity stands for. -/
theorem isTrue_inBase {q : Quantity ℝ} (h : q.unit.Known) (i : Nat) :
    isTrue (q.value.particle i) = decide (q.inBase i ≠ 0) := by
  have hpos := h.size_pos.ne'
  simp [isTrue, inBase, hpos]

/-! ## Branches -/

/-- What follows the condition of an `if`. -/
noncomputable def branches (yes no : Node) (m₁ m₂ : Evaluation ℝ S (Option (Quantity ℝ))) :
    Value ℝ → Evaluation ℝ S (Option (Quantity ℝ))
  | .scalar x => if isTrue x then some <$> required yes m₁ else some <$> required no m₂
  | .sample c => do
    let x ← required yes m₁
    let y ← required no m₂
    some <$> Evaluation.ofExcept (choose c x y)

theorem evaluateNode_ifExpression (body : TreeEvaluation ℝ S) (F : Frames ℝ)
    (condition yes no : Node) : evaluateNode body F (.ifExpression condition yes no) = (do
      let c ← required condition (evaluateNode body F condition)
      branches yes no (evaluateNode body F yes) (evaluateNode body F no) c.value) := by
  rw [evaluateNode]
  refine bind_congr fun c => ?_
  rcases c.value with x | t
  · rfl
  · rfl

omit [RandomSource S ℝ] in
theorem branches_track (hi : i < n) {yes no : Node}
    {m₁ m₂ m₁' m₂' : Evaluation ℝ S (Option (Quantity ℝ))}
    (hyes : TracksParticle n i s m₁ m₁') (hno : TracksParticle n i s m₂ m₂') {q p : Quantity ℝ}
    (hqp : IsParticle n i q p) :
    TracksParticle n i s (branches yes no m₁ m₂ q.value) (branches yes no m₁' m₂' p.value) := by
  have hsame : isTrue (p.value.particle 0) = isTrue (q.value.particle i) := by
    rw [isTrue_inBase hqp.part.known, isTrue_inBase hqp.whole.known, hqp.inBase]
  rcases hp : p.value with z | t
  · rw [hp, Value.particle_scalar] at hsame
    rcases hq : q.value with x | c
    · -- an exact condition: the same branch on both sides
      rw [hq, Value.particle_scalar] at hsame
      simp only [branches, hsame]
      split
      · exact hyes.required.some
      · exact hno.required.some
    · -- an uncertain condition: both branches on one side, the one that is picked on the other
      have hsize : c.size = n := by
        have hshape := hqp.fits
        rw [hq] at hshape
        exact hshape.resolve_left Bool.false_ne_true
      have hparticle : isTrue z = isTrue (c.particle i) := by
        rw [hsame, hq]
        rfl
      have hfirst : Tracks s (s.atParticle i) (IsParticle n i) (required yes m₁) (required yes m₁') :=
        hyes.required
      have hsecond : Tracks s (s.atParticle i) (IsParticle n i) (required no m₂) (required no m₂') :=
        hno.required
      intro r u hrun
      obtain ⟨x, v, hx, hrest⟩ := Evaluation.run_bind_eq_ok.mp hrun
      obtain ⟨rfl, x', hx', hxx'⟩ := hfirst x v hx
      obtain ⟨y, w, hy, hchoose⟩ := Evaluation.run_bind_eq_ok.mp hrest
      obtain ⟨rfl, y', hy', hyy'⟩ := hsecond y w hy
      obtain ⟨chosen, hchosen, rfl⟩ := Evaluation.run_map_eq_ok.mp hchoose
      obtain ⟨hok, rfl⟩ := Evaluation.run_ofExcept_eq_ok.mp hchosen
      have hpart := choose_particle hi hsize hxx' hyy' hok
      refine ⟨rfl, ?_⟩
      simp only [branches, hparticle]
      by_cases htrue : isTrue (c.particle i) = true
      · rw [if_pos htrue] at hpart ⊢
        exact ⟨_, Evaluation.run_some_eq_ok.mpr hx', chosen, x', rfl, rfl, hpart⟩
      · rw [if_neg htrue] at hpart ⊢
        exact ⟨_, Evaluation.run_some_eq_ok.mpr hy', chosen, y', rfl, rfl, hpart⟩
  · have hexact := hqp.isScalar
    rw [isScalar_eq, hp] at hexact
    cases hexact

/-! ## Calls -/

/-- A builtin function of quantities draws nothing. -/
theorem run_callBuiltin {name : String} {f : MathFunction}
    (hname : Builtin.ofName? name = some (.math f))
    (arguments : List (Quantity ℝ)) (s : Session ℝ S) :
    (callBuiltin name arguments).run s =
      (match f.operation.call? arguments with
      | none => .error (.arity (.builtin name arguments.length))
      | some e => e.mapError (inCall name), s) := by
  have hget : (get : Evaluation ℝ S (Session ℝ S)).run s = (.ok s, s) := rfl
  rw [callBuiltin, Evaluation.run_bind_of_ok hget, hname]
  simp only [Builtin.call?]
  rcases f.operation.call? arguments with _ | e
  · rfl
  · rcases e with e | q
    · rfl
    · rfl

theorem unary_call? {f : Quantity ℝ → Except (Fault ℝ) (Quantity ℝ)} {c : Dimension → Prop}
    {d : Dimension → Dimension} {g : ℝ → ℝ} (hop : ActsOn f c d g) {xs ys : List (Quantity ℝ)}
    (hxy : List.Forall₂ (IsParticle n i) xs ys) {r : Quantity ℝ}
    (hr : (Operation.unary f).call? xs = some (.ok r)) :
    ∃ z, (Operation.unary f).call? ys = some (.ok z) ∧ IsParticle n i r z := by
  rcases hxy with _ | ⟨hx, hrest⟩
  · cases hr
  rcases hrest with _ | ⟨_, _⟩
  · obtain ⟨z, hz, hpart⟩ := hop.particle hx (Option.some.inj hr)
    exact ⟨z, congrArg some hz, hpart⟩
  · cases hr

theorem binary_call? (hi : i < n) {f : Quantity ℝ → Quantity ℝ → Except (Fault ℝ) (Quantity ℝ)}
    {c : Dimension → Dimension → Prop} {d : Dimension → Dimension → Dimension} {g : ℝ → ℝ → ℝ}
    (hop : ActsOnBoth f c d g) {xs ys : List (Quantity ℝ)}
    (hxy : List.Forall₂ (IsParticle n i) xs ys) {r : Quantity ℝ}
    (hr : (Operation.binary f).call? xs = some (.ok r)) :
    ∃ z, (Operation.binary f).call? ys = some (.ok z) ∧ IsParticle n i r z := by
  rcases hxy with _ | ⟨hx, hrest⟩
  · cases hr
  rcases hrest with _ | ⟨hy, hrest⟩
  · cases hr
  rcases hrest with _ | ⟨_, _⟩
  · obtain ⟨z, hz, hpart⟩ := hop.particle hi hx hy (Option.some.inj hr)
    exact ⟨z, congrArg some hz, hpart⟩
  · cases hr

theorem clamp_call? (hi : i < n) {xs ys : List (Quantity ℝ)}
    (hxy : List.Forall₂ (IsParticle n i) xs ys) {r : Quantity ℝ}
    (hr : (Operation.ternary MathFunction.between).call? xs = some (.ok r)) :
    ∃ z, (Operation.ternary MathFunction.between).call? ys = some (.ok z) ∧ IsParticle n i r z := by
  rcases hxy with _ | ⟨hx, hrest⟩
  · cases hr
  rcases hrest with _ | ⟨hlow, hrest⟩
  · cases hr
  rcases hrest with _ | ⟨hhigh, hrest⟩
  · cases hr
  rcases hrest with _ | ⟨_, _⟩
  · obtain ⟨z, hz, hpart⟩ := between_particle hi hx hlow hhigh (Option.some.inj hr)
    exact ⟨z, congrArg some hz, hpart⟩
  · cases hr

/-- The four builtin functions take particles of their arguments to particles of their result. -/
theorem call?_particle (hi : i < n) {name : String} {f : MathFunction}
    (hf : (name, f) ∈ particleWiseBuiltins) {xs ys : List (Quantity ℝ)}
    (hxy : List.Forall₂ (IsParticle n i) xs ys) {r : Quantity ℝ}
    (hr : f.operation.call? xs = some (.ok r)) :
    ∃ z, f.operation.call? ys = some (.ok z) ∧ IsParticle n i r z := by
  simp only [particleWiseBuiltins, List.mem_cons, Prod.mk.injEq, List.not_mem_nil, or_false] at hf
  rcases hf with ⟨-, rfl⟩ | ⟨-, rfl⟩ | ⟨-, rfl⟩ | ⟨-, rfl⟩
  · exact unary_call? actsOn_abs hxy hr
  · exact binary_call? hi actsOnBoth_minimum hxy hr
  · exact binary_call? hi actsOnBoth_maximum hxy hr
  · exact clamp_call? hi hxy hr

theorem ofName?_particleWise : ∀ b ∈ particleWiseBuiltins,
    Builtin.ofName? b.1 = some (.math b.2) := by
  decide

theorem callBuiltin_tracks (hi : i < n) {name : String} (hname : name ∈ particleWiseBuiltins.map (·.1))
    {xs ys : List (Quantity ℝ)} (hxy : List.Forall₂ (IsParticle n i) xs ys) :
    Tracks s (s.atParticle i) (IsParticle n i) (callBuiltin name xs) (callBuiltin name ys) := by
  obtain ⟨⟨name, f⟩, hf, rfl⟩ := List.mem_map.mp hname
  have hof := ofName?_particleWise _ hf
  intro r t hr
  rw [run_callBuiltin hof] at hr
  obtain ⟨houtcome, rfl⟩ := Prod.mk.inj hr
  rcases hcall : f.operation.call? xs with _ | e
  · rw [hcall] at houtcome
    cases houtcome
  rcases e with e | q
  · rw [hcall] at houtcome
    cases houtcome
  · rw [hcall] at houtcome
    cases houtcome
    obtain ⟨z, hz, hpart⟩ := call?_particle hi hf hxy hcall
    refine ⟨rfl, z, ?_, hpart⟩
    rw [run_callBuiltin hof, hz]
    rfl

/-- A call of a function of the program: its body is evaluated with the arguments under the names of the
parameters. -/
theorem callFrame_related {function : FunctionDefinition} {xs ys : List (Quantity ℝ)}
    (hxy : List.Forall₂ (IsParticle n i) xs ys) {B : Bindings (Quantity ℝ)}
    (hB : callFrame function xs = .ok B) : ∃ b, callFrame function ys = .ok b ∧
      Bindings.Related (IsParticle n i) B b ∧
      ∀ name ∈ function.parameters, (B.get? name).isSome = true := by
  rw [callFrame] at hB
  split at hB
  · rename_i hlength
    cases hB
    refine ⟨_, if_pos (hxy.length_eq ▸ hlength), Bindings.Related.ofList_zip _ hxy,
      fun name hname => ?_⟩
    refine Bindings.isSome_get?_ofList ?_
    rw [List.map_fst_zip (le_of_eq hlength.symm)]
    exact hname
  · cases hB

/-! ## Whole expressions -/

/-- The bodies of the functions that may be called, evaluated in frames that bind their parameters. -/
def BodiesTrack (n i : Nat) (s : Session ℝ S) (callable : List String) (body : TreeEvaluation ℝ S) :
    Prop :=
  ∀ name ∈ callable, ∀ function, s.functions.get? name = some function → ∀ F f,
    FramesTrack n i function.parameters F f →
      TracksParticle n i s (body F function.body) (body f function.body)

theorem callFunction_tracks {callable names : List String} {body : TreeEvaluation ℝ S}
    (hbody : BodiesTrack n i s callable body) {F f : Frames ℝ} (hframes : FramesTrack n i names F f)
    {name : String} (hname : name ∈ callable) (hdefined : (s.functions.get? name).isSome = true)
    {xs ys : List (Quantity ℝ)} (hxy : List.Forall₂ (IsParticle n i) xs ys) :
    Tracks s (s.atParticle i) (IsParticle n i) (callFunction body F name xs)
      (callFunction body f name ys) := by
  refine .bind .get fun t t' h => ?_
  obtain ⟨rfl, rfl⟩ := h
  obtain ⟨function, hfunction⟩ := Option.isSome_iff_exists.mp hdefined
  have hsame : (t.atParticle i).functions.get? name = some function := hfunction
  rw [hfunction, hsame]
  have hframe : Tracks t (t.atParticle i) (fun B b => Bindings.Related (IsParticle n i) B b ∧
      ∀ name ∈ function.parameters, (B.get? name).isSome = true)
      (Evaluation.ofExcept (callFrame function xs)) (Evaluation.ofExcept (callFrame function ys)) := by
    refine .ofExcept fun B hB => ?_
    obtain ⟨b, hb, hrelated, hbound⟩ := callFrame_related hxy hB
    exact ⟨b, hb, hrelated, hbound⟩
  refine hframe.bind ?_
  rintro B b ⟨hrelated, hbound⟩
  exact (hbody name hname function hfunction _ _
    (hframes.cons hrelated fun name' hname' => .inl (hbound name' hname'))).required

theorem evaluateAll_tracks {body : TreeEvaluation ℝ S} {F f : Frames ℝ} {nodes : List Node}
    (h : ∀ node ∈ nodes, TracksParticle n i s (evaluateNode body F node) (evaluateNode body f node)) :
    Tracks s (s.atParticle i) (List.Forall₂ (IsParticle n i)) (evaluateAll body F nodes)
      (evaluateAll body f nodes) := by
  induction nodes with
  | nil =>
    rw [evaluateAll, evaluateAll]
    exact .pure .nil
  | cons node rest ih =>
    rw [evaluateAll, evaluateAll]
    refine (h node List.mem_cons_self).required.bind fun q p hqp => ?_
    refine (ih fun node' hnode' => h node' (List.mem_cons_of_mem _ hnode')).bind fun xs ys hxy => ?_
    exact .pure (.cons hqp hxy)

/-- A literal whole number is the same plain number on both sides. -/
theorem wholeNumber_tracks {body : TreeEvaluation ℝ S} {F f : Frames ℝ} {x : Decimal} {k : Int}
    (hx : x.value = k) :
    Tracks s (s.atParticle i) (Tracks.Both fun a b => a = .plain (k : ℝ) ∧ b = .plain (k : ℝ))
      (evaluateNode body F (.number x none)) (evaluateNode body f (.number x none)) := by
  have hliteral : ∀ units, literal units (Scalar.ofDecimal x : ℝ) none = .ok (.plain (k : ℝ)) := by
    intro units
    rw [Scalar.ofDecimal_real, hx]
    simp [literal, written?, pure, Except.pure]
  rw [evaluateNode, evaluateNode]
  refine Tracks.some fun a t ha => ?_
  obtain ⟨he, rfl⟩ := run_withUnits_eq_ok.mp ha
  rw [hliteral] at he
  cases he
  exact ⟨rfl, _, run_withUnits_eq_ok.mpr ⟨hliteral _, rfl⟩, rfl, rfl⟩

theorem evaluateNode_binary (body : TreeEvaluation ℝ S) (F : Frames ℝ) (op : BinaryOperator)
    (left right : Node) : evaluateNode body F (.binary op left right) = (do
      let x ← required left (evaluateNode body F left)
      let y ← required right (evaluateNode body F right)
      some <$> Evaluation.ofExcept (binary op x y)) := by
  rw [evaluateNode]

theorem evaluateNode_unary (body : TreeEvaluation ℝ S) (F : Frames ℝ) (op : UnaryOperator)
    (operand : Node) : evaluateNode body F (.unary op operand) = (do
      let x ← required operand (evaluateNode body F operand)
      some <$> Evaluation.ofExcept (unary op x)) := by
  rw [evaluateNode]

theorem negatedNumber_tracks {body : TreeEvaluation ℝ S} {F f : Frames ℝ} {x : Decimal} {k : Int}
    (hx : x.value = k) :
    Tracks s (s.atParticle i)
      (Tracks.Both fun a b => a = .plain ((-k : Int) : ℝ) ∧ b = .plain ((-k : Int) : ℝ))
      (evaluateNode body F (.unary .negate (.number x none)))
      (evaluateNode body f (.unary .negate (.number x none))) := by
  rw [evaluateNode_unary, evaluateNode_unary]
  have hexponent : unary .negate (.plain (k : ℝ)) = .ok (.plain ((-k : Int) : ℝ)) := by
    simp [unary, negate, map, plain, Value.map]
  refine (wholeNumber_tracks hx).required.bind fun a b hab => ?_
  obtain ⟨rfl, rfl⟩ := hab
  rw [hexponent]
  exact Tracks.some (.pure ⟨rfl, rfl⟩)

/-- **One expression.** Given what the functions do that it calls, the rest is induction on the
expression. -/
theorem evaluateNode_tracks (hi : i < n) {callable : List String} {body : TreeEvaluation ℝ S}
    (hbody : BodiesTrack n i s callable body) {names : List String} {node : Node}
    (h : ParticleWise n s callable names node) {F f : Frames ℝ} (hframes : FramesTrack n i names F f) :
    TracksParticle n i s (evaluateNode body F node) (evaluateNode body f node) := by
  induction h generalizing F f with
  | number hforeign =>
    rw [evaluateNode, evaluateNode]
    refine Tracks.some fun q t hq => ?_
    obtain ⟨he, rfl⟩ := run_withUnits_eq_ok.mp hq
    obtain ⟨hsound, hexact⟩ := literal_foreign hforeign he
    exact ⟨rfl, q, run_withUnits_eq_ok.mpr ⟨he, rfl⟩, .of_isScalar hsound hexact⟩
  | identifier hname =>
    rw [evaluateNode, evaluateNode]
    exact (identifier_tracks hframes hname).some
  | arithmetic hop _ _ ihleft ihright =>
    rw [evaluateNode_binary, evaluateNode_binary]
    refine (ihleft hframes).required.bind fun a x hax => ?_
    refine (ihright hframes).required.bind fun b y hby => ?_
    exact (Tracks.ofExcept fun r hr => arithmetic_particle hi hop hax hby hr).some
  | compare hc _ _ ihleft ihright =>
    rw [evaluateNode_binary, evaluateNode_binary]
    refine (ihleft hframes).required.bind fun a x hax => ?_
    refine (ihright hframes).required.bind fun b y hby => ?_
    exact (Tracks.ofExcept fun r hr => compare_particle hi hc hax hby hr).some
  | power hx _ ih =>
    -- the exponent is one plain number on both sides
    rw [evaluateNode_binary, evaluateNode_binary]
    refine (ih hframes).required.bind fun a x hax => ?_
    refine (wholeNumber_tracks hx).required.bind fun b y hby => ?_
    obtain ⟨rfl, rfl⟩ := hby
    exact (Tracks.ofExcept fun r hr => power_particle hax hr).some
  | negativePower hx _ ih =>
    rw [evaluateNode_binary, evaluateNode_binary]
    refine (ih hframes).required.bind fun a x hax => ?_
    refine (negatedNumber_tracks hx).required.bind fun b y hby => ?_
    obtain ⟨rfl, rfl⟩ := hby
    exact (Tracks.ofExcept fun r hr => power_particle hax hr).some
  | negate _ ih =>
    rw [evaluateNode_unary, evaluateNode_unary]
    refine (ih hframes).required.bind fun a x hax => ?_
    exact (Tracks.ofExcept fun r hr => negate_particle hax hr).some
  | conversion htarget _ ih =>
    rw [evaluateNode, evaluateNode]
    refine (ih hframes).required.bind fun q p hqp => Tracks.some fun r t hr => ?_
    obtain ⟨he, rfl⟩ := run_withUnits_eq_ok.mp hr
    obtain ⟨z, hz, hpart⟩ := convertTo_particle htarget hqp he
    exact ⟨rfl, z, run_withUnits_eq_ok.mpr ⟨hz, rfl⟩, hpart⟩
  | @letBinding names name bound inner _ _ ihbound ihbody =>
    rw [evaluateNode, evaluateNode]
    refine (ihbound hframes).required.bind fun q p hqp => (ihbody ?_).required.some
    -- one more frame, which binds the name on both sides
    refine hframes.cons (Bindings.Related.ofList_zip [name] (.cons hqp .nil)) fun other hother => ?_
    rcases List.mem_cons.mp hother with rfl | hother
    · exact .inl (Bindings.isSome_get?_ofList List.mem_cons_self)
    · exact .inr hother
  | ifExpression _ _ _ ihcondition ihyes ihno =>
    rw [evaluateNode_ifExpression, evaluateNode_ifExpression]
    exact (ihcondition hframes).required.bind fun q p hqp =>
      branches_track hi (ihyes hframes) (ihno hframes) hqp
  | builtin hname hfree _ ih =>
    rw [evaluateNode, evaluateNode]
    refine (evaluateAll_tracks fun node hnode => ih node hnode hframes).bind fun xs ys hxy => ?_
    refine Tracks.some (.bind .get fun t t' h => ?_)
    obtain ⟨rfl, rfl⟩ := h
    -- taking particles leaves the functions of the program alone
    have hsame : (t.atParticle i).functions.get? _ = none := hfree
    rw [hfree, hsame]
    exact callBuiltin_tracks hi hname hxy
  | call hname hdefined _ ih =>
    rw [evaluateNode, evaluateNode]
    refine (evaluateAll_tracks fun node hnode => ih node hnode hframes).bind fun xs ys hxy => ?_
    exact (callFunction_tracks hbody hframes hname hdefined hxy).some

/-- The functions that may be called have bodies of the same kind. -/
def CallableParticleWise (n : Nat) (s : Session ℝ S) (callable : List String) : Prop :=
  ∀ name ∈ callable, ∀ function, s.functions.get? name = some function →
    ParticleWise n s callable function.parameters function.body

/-- Expressions and the bodies that they call: induction on the number of calls that may still be
opened. -/
theorem evaluateWithin_tracks (hi : i < n) {callable : List String}
    (hcallable : CallableParticleWise n s callable) (limit : Nat) {names : List String} {node : Node}
    (h : ParticleWise n s callable names node) {F f : Frames ℝ} (hframes : FramesTrack n i names F f) :
    TracksParticle n i s (evaluateWithin limit F node) (evaluateWithin limit f node) := by
  induction limit generalizing names node F f with
  | zero => exact Tracks.throw
  | succ limit ih =>
    rw [evaluateWithin, evaluateWithin]
    refine evaluateNode_tracks hi (fun name hname function hfunction F f hframes => ?_) h hframes
    exact ih (hcallable name hname function hfunction) hframes

/-- **Evaluation is particle by particle.** If an expression that draws nothing has a value, then that
is exact or has `n` particles, and for each of them the expression has an exact value where every
variable has that particle for its value; both have the same dimension and are the same number in base
units. -/
theorem evaluateTree_particle (hn : 0 < n) {callable : List String} {node : Node}
    (hnode : ParticleWise n s callable [] node) (hcallable : CallableParticleWise n s callable)
    {Q : Quantity ℝ} {t : Session ℝ S} (hQ : (evaluateTree node).run s = (.ok (some Q), t)) :
    t = s ∧ (Q.isScalar = true ∨ Q.size = n) ∧ ∃ F, Q.unit.factor = .ok F ∧
      ∀ i < n, ∃ x u f, (evaluateTree node).run (s.atParticle i) =
          (.ok (some ⟨.scalar x, u⟩), s.atParticle i) ∧
        u.dimension = Q.dimension ∧ u.factor = .ok f ∧ x * f = Q.value.particle i * F := by
  have htracks : ∀ i < n, t = s ∧ ∃ q, (evaluateTree node).run (s.atParticle i) =
      (.ok (some q), s.atParticle i) ∧ IsParticle n i Q q := by
    intro i hi
    obtain ⟨rfl, b, hb, q, p, hq, hp, hqp⟩ :=
      evaluateWithin_tracks hi hcallable (callLimit + 1) hnode FramesTrack.nil _ _ hQ
    cases hq
    subst hp
    exact ⟨rfl, p, hb, hqp⟩
  -- the shape does not depend on the particle: the first one tells it
  obtain ⟨rfl, p₀, -, hfirst⟩ := htracks 0 hn
  refine ⟨rfl, hfirst.shape, Q.unit.size, CompoundUnit.factor_eq hfirst.whole.known, fun i hi => ?_⟩
  obtain ⟨-, ⟨v, u⟩, hrun, hpart⟩ := htracks i hi
  rcases v with x | c
  · refine ⟨x, u, u.size, hrun, hpart.dimension, CompoundUnit.factor_eq hpart.part.known, ?_⟩
    have hinBase := hpart.inBase
    rw [inBase_mk, Value.particle_scalar] at hinBase
    exact hinBase
  · cases hpart.isScalar

/-- An uncertain variable of three particles and two more. -/
theorem two_more :
    let x : Quantity ℝ := ⟨.sample ⟨1, [5, 3]⟩, .one⟩
    let s : Session ℝ (ConstantSource ℝ) := (Session.ofSource
      ⟨⟨3, by decide⟩, .decimal 0.9, none⟩ ⟨0, 0⟩).setVariable "x" x
    let node : Node := .binary .add (.identifier "x") (.number ⟨false, 2, 0⟩ none)
    ∃ Q t, (evaluateTree node).run s = (.ok (some Q), t) ∧ ∃ F, Q.unit.factor = .ok F ∧
      ∀ i < 3, ∃ x u f, (evaluateTree node).run (s.atParticle i) =
          (.ok (some ⟨.scalar x, u⟩), s.atParticle i) ∧
        u.dimension = Q.dimension ∧ u.factor = .ok f ∧ x * f = Q.value.particle i * F := by
  intro x s node
  have hx : x.Sound := ⟨CompoundUnit.known_one, CompoundUnit.canonical_one⟩
  have hvariable : s.values.get? "x" = some x := rfl
  have hnode : ParticleWise 3 s [] [] node :=
    .arithmetic List.mem_cons_self (.identifier (.inr ⟨x, hvariable, hx, .inr rfl⟩))
      (.number fun text htext => nomatch htext)
  obtain ⟨Q, hQ, -⟩ := add_combines hx (sound_plain 2) rfl
  have hleft : (evaluateNode (evaluateWithin callLimit) [] (.identifier "x")).run s =
      (.ok (some x), s) := by
    rw [evaluateNode]
    rfl
  have hright : (evaluateNode (evaluateWithin callLimit) [] (.number ⟨false, 2, 0⟩ none)).run s =
      (.ok (some (.plain 2)), s) := by
    have htwo : (Scalar.ofDecimal ⟨false, 2, 0⟩ : ℝ) = 2 := by
      rw [Scalar.ofDecimal_real, (by decide : Decimal.value ⟨false, 2, 0⟩ = 2)]
      norm_num
    rw [evaluateNode, htwo]
    rfl
  -- it has a value, so the theorem has something to say about it
  have hrun : (evaluateTree node).run s = (.ok (some Q), s) := by
    rw [evaluateTree, evaluateWithin, evaluateNode_binary,
      Evaluation.run_bind_of_ok (run_required_eq_ok.mpr hleft),
      Evaluation.run_bind_of_ok (run_required_eq_ok.mpr hright)]
    exact Evaluation.run_some_eq_ok.mpr (Evaluation.run_ofExcept_eq_ok.mpr ⟨hQ, rfl⟩)
  have hcallable : CallableParticleWise 3 s [] := fun name hname => absurd hname List.not_mem_nil
  obtain ⟨-, -, hparticles⟩ := evaluateTree_particle (by decide) hnode hcallable hrun
  exact ⟨Q, s, hrun, hparticles⟩

end Session

end Ballpark
