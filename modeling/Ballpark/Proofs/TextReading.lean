import Ballpark.Proofs.Dependence
import Ballpark.Proofs.EvaluationPoint
import Ballpark.Proofs.UnitRefusal

/-!
# Texts that an evaluation reads

A text that stands at a node is read as a unit when what comes before it has been evaluated: the operands,
the number that it belongs to, the tables that may hold a name (`Point.Reads`). No other step of an
evaluation reads the text of a program, so a fault of syntax can only be the refusal of a text, at the
point where it is read; and every such refusal is the fault of the whole (`Point.run_parse_iff`).
-/

namespace Ballpark

open Session Evaluation

/-- Does the node draw from an interval between its operands? -/
def Node.isRange : Node → Bool
  | .range .. | .uniformRange .. | .normalRange .. => true
  | _ => false

namespace Point

variable {R S : Type} [Scalar R] [RandomSource S R]

/-- The texts that are read as units at a point itself. -/
inductive Reads : Point R S → String → Prop
  /-- a name that is not bound, and neither a variable nor a constant -/
  | identifier {limit : Nat} {F : Frames R} {name : String} {s t : Session R S}
      (hname : (lookup? F name).run s = (.ok none, t)) : Reads ⟨limit, F, .identifier name, s⟩ name
  | unit {limit : Nat} {F : Frames R} {text : String} {s : Session R S} :
      Reads ⟨limit, F, .unit text, s⟩ text
  | number {limit : Nat} {F : Frames R} {x : Decimal} {unit : Option String} {text : String}
      {s : Session R S} (htext : written? unit = some text) : Reads ⟨limit, F, .number x unit, s⟩ text
  | sigFig {limit : Nat} {F : Frames R} {literal text : String} {unit : Option String}
      {s t : Session R S} {q : Quantity R} (htext : written? unit = some text)
      (hq : (Session.sigFig literal none).run s = (.ok q, t)) :
      Reads ⟨limit, F, .sigFig literal unit, s⟩ text
  | range {limit : Nat} {F : Frames R} {n : Node} {text : String} {s t : Session R S}
      {bounds : List (Quantity R)} (hn : n.isRange = true) (htext : n.unitText? = some text)
      (hbounds : (evaluateAll (evaluateWithin limit) F n.operands).run s = (.ok bounds, t)) :
      Reads ⟨limit, F, n, s⟩ text
  | set {limit : Nat} {F : Frames R} {values weights : List Node} {unit : Option String}
      {text : String} {s t : Session R S} {q : Quantity R} (htext : written? unit = some text)
      (hq : run ⟨limit, F, .weightedSet values weights none, s⟩ = (.ok (some q), t)) :
      Reads ⟨limit, F, .weightedSet values weights unit, s⟩ text
  /-- a target that the program has not defined as a unit -/
  | target {limit : Nat} {F : Frames R} {expression : Node} {target : String} {s t : Session R S}
      {q : Quantity R} (hq : run ⟨limit, F, expression, s⟩ = (.ok (some q), t))
      (hbase : Text.trimText target ≠ "SI") (hunit : t.units.get? (Text.trimText target) = none) :
      Reads ⟨limit, F, .conversion expression target, s⟩ (Text.trimText target)
  /-- a target that the program has defined, when the quantity has been converted -/
  | label {limit : Nat} {F : Frames R} {expression : Node} {target : String} {s t : Session R S}
      {q definition p ratio : Quantity R} (hq : run ⟨limit, F, expression, s⟩ = (.ok (some q), t))
      (hbase : Text.trimText target ≠ "SI")
      (hunit : t.units.get? (Text.trimText target) = some definition)
      (hconvert : q.convert definition.unit = .ok p) (hratio : p.divide definition = .ok ratio) :
      Reads ⟨limit, F, .conversion expression target, s⟩ (Text.trimText target)

/-! ## Refusals -/

omit [RandomSource S R] in
theorem quantity_of_error {text : String} {f : Fault R} (h : CompoundUnit.ofText text = .error f)
    (value : Value R) : Quantity.ofText value text = .error f := by
  rw [Quantity.ofText, h]
  rfl

omit [RandomSource S R] in
theorem unitQuantity_of_error {text : String} {f : Fault R} (h : CompoundUnit.ofText text = .error f)
    (units : Bindings (Quantity R)) : unitQuantity units text = .error f := by
  rw [unitQuantity, h]
  rfl

/-- A name that is not found and refused as a unit. -/
theorem run_identifier_of_refused {F : Frames R} {name : String} {s t : Session R S}
    (hname : (lookup? F name).run s = (.ok none, t)) {f : Fault R} (hf : f.kind = .parse)
    (h : CompoundUnit.ofText name = .error f) : (Session.identifier F name).run s = (.error f, t) := by
  rw [Session.identifier, run_bind_of_ok hname]
  dsimp only
  split
  · rename_i heq
    rw [quantity_of_error h] at heq
    cases heq
    cases hf
  · rw [run_ofExcept, quantity_of_error h]

/-- The unit of a literal comes after its number. -/
theorem sigFig_eq (text : String) (unit : Option String) : (Session.sigFig text unit : Evaluation R S _) =
    Session.sigFig text none >>= fun q => withUnits (inUnit · q unit) := by
  have hnone : ∀ q : Quantity R, (withUnits (inUnit · q none) : Evaluation R S _) = pure q := fun _ => rfl
  simp only [Session.sigFig, bind_assoc, hnone, pure_bind]

/-- The unit of a set comes after its number. -/
theorem evaluateNode_set (body : TreeEvaluation R S) (F : Frames R) (values weights : List Node)
    (unit : Option String) : evaluateNode body F (.weightedSet values weights unit) =
      evaluateNode body F (.weightedSet values weights none) >>= fun
        | some q => some <$> withUnits (inUnit · q unit)
        | none => pure none := by
  have hnone : ∀ q : Quantity R, (withUnits (inUnit · q none) : Evaluation R S _) = pure q := fun _ => rfl
  simp only [evaluateNode, bind_assoc, hnone, map_eq_pure_bind, pure_bind]

theorem inUnit_of_error {text : String} {f : Fault R} (h : CompoundUnit.ofText text = .error f)
    {unit : Option String} (hunit : written? unit = some text) (units : Bindings (Quantity R))
    (q : Quantity R) : inUnit units q unit = .error f := by
  rw [inUnit, hunit]
  simp only [unitQuantity_of_error h]
  rfl

theorem trailingBounds_of_error {text : String} {f : Fault R} (h : CompoundUnit.ofText text = .error f)
    (units : Bindings (Quantity R)) (low high : Quantity R) :
    trailingBounds units low high text = .error f := by
  rw [trailingBounds, unitQuantity_of_error h]
  rfl

theorem run_range_of_error {limit : Nat} {F : Frames R} {n : Node} {text : String} {s t : Session R S}
    {bounds : List (Quantity R)} (hn : n.isRange = true) (htext : n.unitText? = some text)
    (hbounds : (evaluateAll (evaluateWithin limit) F n.operands).run s = (.ok bounds, t)) {f : Fault R}
    (h : CompoundUnit.ofText text = .error f) : run ⟨limit, F, n, s⟩ = (.error f, t) := by
  have hlength := length_of_evaluateAll _ _ hbounds
  have hstrict : n.isStrict = true := by cases n <;> first | rfl | cases hn
  rw [run, evaluateNode_operation _ _ hstrict, run_bind_of_ok hbounds]
  cases n with
  | range left right unit | uniformRange left right unit | normalRange left right unit =>
    obtain ⟨low, high, rfl⟩ := List.length_eq_two.mp hlength
    have hunit : written? unit = some text := htext
    refine run_bind_of_error (Prod.ext ?_ rfl)
    simp only [strictBounds, looseBounds, hunit, trailingBounds_of_error h]
    rfl
  | _ => cases hn

/-- **A text that is refused is the fault of the point** where it is read. -/
theorem Reads.run_eq_error {p : Point R S} {text : String} (h : p.Reads text) {f : Fault R}
    (hf : f.kind = .parse) (htext : CompoundUnit.ofText text = .error f) :
    ∃ t, p.run = (.error f, t) := by
  have hquantity := unitQuantity_of_error htext
  cases h with
  | @identifier _ _ _ _ t hname =>
    refine ⟨t, ?_⟩
    rw [run, evaluateNode]
    exact run_map_of_error (run_identifier_of_refused hname hf htext)
  | @unit _ _ _ s =>
    refine ⟨s, ?_⟩
    rw [run, evaluateNode]
    exact run_map_of_error (Prod.ext (hquantity _) rfl)
  | @number _ _ x unit _ s hunit =>
    refine ⟨s, ?_⟩
    have hliteral : literal s.units (Scalar.ofDecimal x) unit = .error f := by
      rw [literal, hunit]
      simp only [hquantity]
      rfl
    rw [run, evaluateNode]
    exact run_map_of_error (Prod.ext hliteral rfl)
  | @sigFig _ _ literal _ unit s t q hunit hq =>
    refine ⟨t, ?_⟩
    rw [run, evaluateNode]
    refine run_map_of_error ?_
    rw [sigFig_eq, run_bind_of_ok hq]
    exact Prod.ext (inUnit_of_error htext hunit _ q) rfl
  | range hn hunit hbounds => exact ⟨_, run_range_of_error hn hunit hbounds htext⟩
  | @set _ _ values weights unit _ s t q hunit hq =>
    refine ⟨t, ?_⟩
    rw [run, evaluateNode_set]
    refine (run_bind_of_ok hq).trans (run_map_of_error (Prod.ext ?_ rfl))
    exact inUnit_of_error htext hunit _ q
  | @target _ _ _ target s t q hq hbase hunit =>
    refine ⟨t, ?_⟩
    have hconvert : convertTo t.units q target = .error f := by
      simp only [convertTo, beq_eq_false_iff_ne.mpr hbase, Bool.false_eq_true, if_false, hunit,
        Quantity.convertTo, htext]
      rfl
    rw [run, evaluateNode]
    exact (run_bind_of_ok (run_required_of_ok hq)).trans (run_map_of_error (Prod.ext hconvert rfl))
  | @label _ _ _ target s t q definition p ratio hq hbase hunit hp hratio =>
    refine ⟨t, ?_⟩
    have hconvert : convertTo t.units q target = .error f := by
      simp only [convertTo, beq_eq_false_iff_ne.mpr hbase, Bool.false_eq_true, if_false, hunit, hp,
        hratio, htext, bind, Except.bind]
    rw [run, evaluateNode]
    exact (run_bind_of_ok (run_required_of_ok hq)).trans (run_map_of_error (Prod.ext hconvert rfl))

/-! ## Where a fault of syntax comes from -/

omit [RandomSource S R] in
/-- Everything that a session stores is in some unit. -/
theorem stores_all (s : Session R S) : s.Stores (.all R) s.settings := by
  refine ⟨rfl, ?_, ?_, ?_, ?_⟩
  all_goals exact fun _ _ _ => True.intro

variable {limit : Nat} {F : Frames R} {s t u : Session R S} {f : Fault R}

omit [RandomSource S R] in
/-- What reads no text is refused none. -/
theorem kind_ne_of_run {α : Type} {m : Evaluation R S α} {P : α → Prop}
    (h : Keeps ((UnitClass.all R).contract S s.settings).Inv m P (Fault.From []))
    (hrun : m.run s = (.error f, t)) : f.kind ≠ .parse := by
  intro hf
  have hend := (h s (stores_all s)).1
  rw [hrun] at hend
  obtain ⟨text, htext, -⟩ := (hend.of_error rfl).refused hf
  cases htext

omit [RandomSource S R] in
theorem exists_text_of_withUnits {α : Type} {texts : List String} {P : α → Prop}
    {g : Bindings (Quantity R) → Except (Fault R) α}
    (hg : ∀ units : Bindings (Quantity R), units.All (UnitClass.all R).Val → Ends (g units) P (Fault.From texts))
    (hf : f.kind = .parse) (hrun : (withUnits g : Evaluation R S α).run s = (.error f, t)) :
    ∃ text ∈ texts, CompoundUnit.ofText text = .error f := by
  rw [run_withUnits, Prod.mk.injEq] at hrun
  exact ((hg s.units (stores_all s).units).of_error hrun.1).refused hf

theorem reads_of_identifier {name : String} (hf : f.kind = .parse)
    (h : (Session.identifier F name).run s = (.error f, u)) :
    Reads ⟨limit, F, .identifier name, s⟩ name ∧ CompoundUnit.ofText name = .error f := by
  have hlookup : Keeps ((UnitClass.all R).contract S s.settings).Inv (lookup? F name)
      (fun _ => True) (Fault.From (UnitClass.constantTexts R name)) := by
    rw [lookup?]
    split
    · exact .pure trivial
    · exact (UnitClass.valueOf_keeps name).mono (fun _ _ => trivial) fun _ => id
  rw [Session.identifier, run_bind_eq_error] at h
  rcases h with hfound | ⟨value, t, hfound, hread⟩
  · have hend := (hlookup s (stores_all s)).1
    rw [hfound] at hend
    exact absurd hf (hend.of_error rfl).constant
  rcases value with _ | q
  · refine ⟨.identifier hfound, ?_⟩
    dsimp only at hread
    split at hread
    · cases hread
      cases hf
    · rw [run_ofExcept] at hread
      have hname : Quantity.ofText (.scalar (Scalar.ofNat 1 : R)) name = .error f :=
        congrArg Prod.fst hread
      rw [Quantity.ofText] at hname
      rcases hunit : (CompoundUnit.ofText name : Except (Fault R) _) with g | r
      · rw [hunit] at hname
        cases hname
        rfl
      · rw [hunit] at hname
        cases hname
  · cases hread

theorem reads_of_sigFig {literal : String} {unit : Option String} (hf : f.kind = .parse)
    (h : (Session.sigFig literal unit).run s = (.error f, u)) :
    ∃ text, Reads ⟨limit, F, .sigFig literal unit, s⟩ text ∧ CompoundUnit.ofText text = .error f := by
  rw [sigFig_eq, run_bind_eq_error] at h
  rcases h with hdraw | ⟨q, t, hdraw, hread⟩
  · exact absurd hf (kind_ne_of_run (UnitClass.sigFig_keeps literal none) hdraw)
  · obtain ⟨text, htext, hrefused⟩ :=
      exists_text_of_withUnits (fun _ hunits => UnitClass.inUnit_gives hunits (q := q) trivial unit) hf hread
    exact ⟨text, .sigFig (Option.mem_toList.mp htext) hdraw, hrefused⟩

/-- A conversion to base units reads no text, and one to a unit of the program reads it last. -/
theorem reads_of_conversion {expression : Node} {target : String} {q : Quantity R}
    (hq : run ⟨limit, F, expression, s⟩ = (.ok (some q), t)) (hf : f.kind = .parse)
    (h : convertTo t.units q target = .error f) :
    ∃ text, Reads ⟨limit, F, .conversion expression target, s⟩ text ∧
      CompoundUnit.ofText text = .error f := by
  have hall : (UnitClass.all R).Val q := trivial
  obtain ⟨text, htext, hrefused⟩ :=
    ((UnitClass.convertTo_gives (stores_all t).units hall target).of_error h).refused hf
  obtain rfl := List.mem_singleton.mp htext
  have hquiet {m : Except (Fault R) (Quantity R)} (hm : (UnitClass.all R).Gives [] m) :
      m ≠ .error f := fun herror => by
    obtain ⟨text, htext, -⟩ := (hm.of_error herror).refused hf
    cases htext
  rw [convertTo] at h
  by_cases hbase : Text.trimText target = "SI"
  · simp only [hbase, beq_self_eq_true, if_true] at h
    exact absurd h (hquiet (UnitClass.toBase_gives hall))
  simp only [beq_eq_false_iff_ne.mpr hbase, Bool.false_eq_true, if_false] at h
  rcases hunit : t.units.get? (Text.trimText target) with _ | definition
  · exact ⟨_, .target hq hbase hunit, hrefused⟩
  simp only [hunit] at h
  rcases error_of_bind h with hp | ⟨p, hp, h⟩
  · exact absurd hp (hquiet (UnitClass.convert_gives trivial))
  rcases error_of_bind h with hratio | ⟨ratio, hratio, -⟩
  · exact absurd hratio (hquiet (UnitClass.divide_gives trivial trivial))
  · exact ⟨_, .label hq hbase hunit hp hratio, hrefused⟩

omit [RandomSource S R] in
/-- Samplers read no text. -/
theorem sampleIn_ne_refused {unit : CompoundUnit R}
    {sampler : Written R → SampleFrame R → Draw R S (Quantity R)} (hf : f.kind = .parse)
    (hsampler : ∀ confidence count, Proper [] count → SampleFrame.Gives ⟨count, .unit unit⟩
      (sampler confidence ⟨count, .unit unit⟩)) : (sampleIn unit sampler).run s ≠ (.error f, t) :=
  fun hrun => kind_ne_of_run (UnitClass.sampleIn_keeps (C := .all R) trivial hsampler) hrun hf

omit [RandomSource S R] in
/-- Operators read no text. -/
theorem ofExcept_ne_refused {e : Except (Fault R) (Quantity R)} (hf : f.kind = .parse)
    (he : (UnitClass.all R).Gives [] e) : (Evaluation.ofExcept e).run s ≠ (.error f, t) := by
  intro hrun
  obtain ⟨text, htext, -⟩ := (he.of_error (congrArg Prod.fst hrun)).refused hf
  cases htext

/-- Ranges read the unit behind both bounds. -/
theorem reads_of_bounds {n : Node} (hn : n.isRange = true) {values : List (Quantity R)}
    (hvalues : (evaluateAll (evaluateWithin limit) F n.operands).run s = (.ok values, t))
    {bounds : Bindings (Quantity R) → Except (Fault R) (Bounds R)}
    (hbounds : ∀ units : Bindings (Quantity R), units.All (UnitClass.all R).Val →
      (UnitClass.all R).GivesBounds n.unitText?.toList (bounds units))
    {sampler : Bounds R → Written R → SampleFrame R → Draw R S (Quantity R)}
    (hsampler : ∀ b confidence count, Proper [] count →
      SampleFrame.Gives ⟨count, .unit b.unit⟩ (sampler b confidence ⟨count, .unit b.unit⟩))
    (hf : f.kind = .parse) (h : (do
      let b ← withUnits bounds
      some <$> sampleIn b.unit (sampler b) : Evaluation R S _).run t = (.error f, u)) :
    ∃ text, Reads ⟨limit, F, n, s⟩ text ∧ CompoundUnit.ofText text = .error f := by
  rcases run_bind_eq_error.mp h with hread | ⟨b, v, -, hdraw⟩
  · obtain ⟨text, htext, hrefused⟩ := exists_text_of_withUnits hbounds hf hread
    exact ⟨text, .range hn (Option.mem_toList.mp htext) hvalues, hrefused⟩
  · exact absurd (run_map_eq_error.mp hdraw) (sampleIn_ne_refused hf (hsampler b))

/-- An operation that is no call fails by its syntax only where it reads a text of its own. -/
theorem reads_of_step {n : Node} (hn : n.isStrict = true) (hcall : n.isCall = false)
    {values : List (Quantity R)}
    (hvalues : (evaluateAll (evaluateWithin limit) F n.operands).run s = (.ok values, t))
    (hf : f.kind = .parse) (h : (step F n values).run t = (.error f, u)) :
    ∃ text, Reads ⟨limit, F, n, s⟩ text ∧ CompoundUnit.ofText text = .error f := by
  have hlength := length_of_evaluateAll _ _ hvalues
  have hall : ∀ q, (UnitClass.all R).Val q := fun _ => trivial
  cases n with
  | ifExpression | letBinding | assignment | unitDefinition | functionDefinition | program | foreign =>
    cases hn
  | call => cases hcall
  -- leaves
  | number x unit =>
    cases hvalues
    obtain ⟨text, htext, hrefused⟩ := exists_text_of_withUnits
      (fun _ hunits => UnitClass.literal_gives hunits _ unit) hf (run_map_eq_error.mp h)
    exact ⟨text, .number (Option.mem_toList.mp htext), hrefused⟩
  | sigFig literal unit =>
    cases hvalues
    exact reads_of_sigFig hf (run_map_eq_error.mp h)
  | identifier name =>
    cases hvalues
    exact ⟨name, reads_of_identifier hf (run_map_eq_error.mp h)⟩
  | unit text =>
    cases hvalues
    obtain ⟨_, htext, hrefused⟩ := exists_text_of_withUnits (fun _ hunits =>
      UnitClass.unitQuantity_gives hunits (List.mem_singleton_self text)) hf (run_map_eq_error.mp h)
    exact ⟨text, .unit, List.mem_singleton.mp htext ▸ hrefused⟩
  | percentTwiddle x =>
    exact absurd (run_map_eq_error.mp h)
      (sampleIn_ne_refused hf fun _ _ h => Sampler.percent_gives h _ _)
  | decibelTwiddle x =>
    exact absurd (run_map_eq_error.mp h)
      (sampleIn_ne_refused hf fun _ _ h => Sampler.decibels_gives h _ _)
  -- operators and shares
  | binary op left right =>
    obtain ⟨x, y, rfl⟩ := List.length_eq_two.mp hlength
    exact absurd (run_map_eq_error.mp h)
      (ofExcept_ne_refused hf (UnitClass.binary_gives op (hall x) (hall y)))
  | unary op operand =>
    obtain ⟨x, rfl⟩ := List.length_eq_one_iff.mp hlength
    exact absurd (run_map_eq_error.mp h) (ofExcept_ne_refused hf (UnitClass.unary_gives op (hall x)))
  | betaOf successes total =>
    obtain ⟨x, y, rfl⟩ := List.length_eq_two.mp hlength
    exact absurd (run_map_eq_error.mp h)
      (sampleIn_ne_refused hf fun _ _ h => Sampler.outOf_gives h _ _)
  | betaAgainst pro contra =>
    obtain ⟨x, y, rfl⟩ := List.length_eq_two.mp hlength
    exact absurd (run_map_eq_error.mp h)
      (sampleIn_ne_refused hf fun _ _ h => Sampler.against_gives h _ _)
  -- ranges
  | range left right unit =>
    obtain ⟨low, high, rfl⟩ := List.length_eq_two.mp hlength
    exact reads_of_bounds rfl hvalues
      (fun _ hunits => UnitClass.strictBounds_give hunits right (hall high) unit)
      (fun _ _ _ h => Sampler.interval_gives h _ _ _) hf h
  | uniformRange left right unit =>
    obtain ⟨low, high, rfl⟩ := List.length_eq_two.mp hlength
    exact reads_of_bounds rfl hvalues
      (fun _ hunits => UnitClass.looseBounds_give hunits (hall low) (hall high) true unit)
      (fun _ _ _ h => Sampler.uniform_gives h _ _) hf h
  | normalRange left right unit =>
    obtain ⟨low, high, rfl⟩ := List.length_eq_two.mp hlength
    exact reads_of_bounds rfl hvalues
      (fun _ hunits => UnitClass.looseBounds_give hunits (hall low) (hall high) false unit)
      (fun _ _ _ h => Sampler.normal_gives h _ _ _) hf h
  -- the unit behind a set and a target come after what they belong to
  | weightedSet values weights unit =>
    rcases run_bind_eq_error.mp h with hdraw | ⟨q, v, hdraw, hread⟩
    · exact absurd hdraw (sampleIn_ne_refused hf fun _ _ h => Sampler.weighted_gives h _ _)
    · obtain ⟨text, htext, hrefused⟩ := exists_text_of_withUnits
        (fun _ hunits => UnitClass.inUnit_gives hunits (hall q) unit) hf (run_map_eq_error.mp hread)
      refine ⟨text, .set (Option.mem_toList.mp htext) (q := q) (t := v) ?_, hrefused⟩
      rw [run, evaluateNode_operation _ _ rfl]
      exact (run_bind_of_ok hvalues).trans (run_bind_of_ok hdraw)
  | conversion expression target =>
    obtain ⟨q, rfl⟩ := List.length_eq_one_iff.mp hlength
    rw [show (Node.conversion expression target).operands = [expression] from rfl, evaluateAll] at hvalues
    obtain ⟨p, v, hp, hrest⟩ := run_bind_eq_ok.mp hvalues
    cases hrest
    exact reads_of_conversion (run_required_eq_ok.mp hp) hf (congrArg Prod.fst (run_map_eq_error.mp h))

/-! ## Points that a fault comes from -/

omit [Scalar R] [RandomSource S R] in
/-- That a node has no value is no fault of syntax. -/
theorem run_of_required {node : Node} {m : Evaluation R S (Option (Quantity R))} (hf : f.kind = .parse)
    (h : (required node m).run s = (.error f, t)) : m.run s = (.error f, t) := by
  rw [required, run_bind_eq_error] at h
  rcases h with hm | ⟨_ | q, v, -, hvalue⟩
  · exact hm
  · cases hvalue
    cases hf
  · cases hvalue

/-- Operands fail where one of them does, after those before it. -/
theorem exists_operand_of_evaluateAll {body : TreeEvaluation R S} {nodes : List Node}
    (hf : f.kind = .parse) (h : (evaluateAll body F nodes).run s = (.error f, t)) :
    ∃ before m after qs u, nodes = before ++ m :: after ∧
      (evaluateAll body F before).run s = (.ok qs, u) ∧ (evaluateNode body F m).run u = (.error f, t) := by
  induction nodes generalizing s with
  | nil =>
    rw [evaluateAll] at h
    cases h
  | cons node rest ih =>
    rw [evaluateAll, run_bind_eq_error] at h
    rcases h with hnode | ⟨q, v, hnode, hrest⟩
    · exact ⟨[], node, rest, [], s, rfl, by rw [evaluateAll]; rfl, run_of_required hf hnode⟩
    · rcases run_bind_eq_error.mp hrest with hrest | ⟨qs, w, -, hpure⟩
      · obtain ⟨before, m, after, qs, w, rfl, hbefore, hm⟩ := ih hrest
        refine ⟨node :: before, m, after, q :: qs, w, rfl, ?_, hm⟩
        rw [evaluateAll]
        exact (run_bind_of_ok hnode).trans ((run_bind_of_ok hbefore).trans rfl)
      · cases hpure

/-- Statements fail where one of them does, after those before it. -/
theorem exists_statement_of_evaluateLast {body : TreeEvaluation R S} {nodes : List Node}
    {value : Option (Quantity R)} (h : (evaluateLast body F value nodes).run s = (.error f, t)) :
    ∃ before m after last u, nodes = before ++ m :: after ∧
      (evaluateLast body F value before).run s = (.ok last, u) ∧
      (evaluateNode body F m).run u = (.error f, t) := by
  induction nodes generalizing s value with
  | nil =>
    rw [evaluateLast] at h
    cases h
  | cons node rest ih =>
    rw [evaluateLast, run_bind_eq_error] at h
    rcases h with hnode | ⟨next, v, hnode, hrest⟩
    · exact ⟨[], node, rest, value, s, rfl, by rw [evaluateLast]; rfl, hnode⟩
    · obtain ⟨before, m, after, last, w, rfl, hbefore, hm⟩ := ih hrest
      refine ⟨node :: before, m, after, last, w, rfl, ?_, hm⟩
      rw [evaluateLast]
      exact (run_bind_of_ok hnode).trans hbefore

/-- The body of a function is entered when the call has been accepted. -/
theorem enters_body_of_call {name : String} {arguments : List Node} {values : List (Quantity R)}
    (hvalues : (evaluateAll (evaluateWithin limit) F arguments).run s = (.ok values, t))
    (hf : f.kind = .parse)
    (h : (callFunction (evaluateWithin limit) F name values).run t = (.error f, u)) :
    ∃ q, Enters ⟨limit, F, .call name arguments, s⟩ q ∧ q.run = (.error f, u) := by
  obtain hget | ⟨v, w, hget, h⟩ := run_bind_eq_error.mp h
  · cases hget
  cases hget
  rcases hfunction : t.functions.get? name with _ | function
  · simp only [hfunction] at h
    exact absurd hf (kind_ne_of_run (UnitClass.callBuiltin_keeps (C := .all R) name fun _ _ => trivial) h)
  simp only [hfunction] at h
  rcases run_bind_eq_error.mp h with hframe | ⟨frame, v, hframe, hbody⟩
  · have hframe : callFrame function values = .error f := congrArg Prod.fst hframe
    rw [callFrame] at hframe
    split at hframe
    · cases hframe
    · cases hframe
      cases hf
  · obtain ⟨haccepted, rfl⟩ := run_ofExcept_eq_ok.mp hframe
    have hbody := run_of_required hf hbody
    cases limit with
    | zero =>
      cases hbody
      cases hf
    | succ limit => exact ⟨_, .body hvalues hfunction haccepted, hbody⟩

/-- A choice has no faults of syntax but those of its condition and of the branches that it evaluates. -/
theorem enters_of_choice {condition yes no : Node} (hf : f.kind = .parse)
    (h : (evaluateNode (evaluateWithin limit) F (.ifExpression condition yes no)).run s = (.error f, t)) :
    ∃ q, Enters (⟨limit, F, .ifExpression condition yes no, s⟩ : Point R S) q ∧ q.run = (.error f, t) := by
  rw [evaluateNode, run_bind_eq_error] at h
  rcases h with hcondition | ⟨q, u, hcondition, h⟩
  · exact ⟨_, .condition, run_of_required hf hcondition⟩
  have hcondition := run_required_eq_ok.mp hcondition
  rcases hvalue : q.value with x | particles
  · -- one particle: one branch
    simp only [hvalue] at h
    rcases hx : isTrue x with _ | _
    · simp only [hx, Bool.false_eq_true, if_false] at h
      exact ⟨_, .no hcondition hvalue hx, run_of_required hf (run_map_eq_error.mp h)⟩
    · simp only [hx, if_true] at h
      refine ⟨_, .yes hcondition fun y hy => ?_, run_of_required hf (run_map_eq_error.mp h)⟩
      cases hvalue.symm.trans hy
      exact hx
  · -- several: both branches, and then a choice between their particles, which reads no text
    simp only [hvalue, run_bind_eq_error] at h
    rcases h with hyes | ⟨first, v, hyes, h⟩
    · refine ⟨_, .yes hcondition fun y hy => ?_, run_of_required hf hyes⟩
      cases hvalue.symm.trans hy
    have hyes := run_required_eq_ok.mp hyes
    rcases h with hno | ⟨second, w, -, hchoose⟩
    · exact ⟨_, .other hcondition hvalue hyes, run_of_required hf hno⟩
    · have hfirst : (UnitClass.all R).Val first := trivial
      exact absurd (run_map_eq_error.mp hchoose) (ofExcept_ne_refused hf (UnitClass.choose_gives _ hfirst))

/-- **A fault of syntax comes from a text that is refused**: at the point itself, or at one that it
enters. -/
theorem enters_or_reads {p : Point R S} (hf : f.kind = .parse) (h : p.run = (.error f, t)) :
    (∃ q, Enters p q ∧ q.run = (.error f, t)) ∨
      ∃ text, p.Reads text ∧ CompoundUnit.ofText text = .error f := by
  obtain ⟨limit, F, n, s⟩ := p
  have hall : ∀ q, (UnitClass.all R).Val q := fun _ => trivial
  rcases hn : n.isStrict with _ | _
  · rw [run] at h
    cases n with
    | ifExpression condition yes no => exact .inl (enters_of_choice hf h)
    | letBinding name bound inner =>
      rw [evaluateNode, run_bind_eq_error] at h
      rcases h with hbound | ⟨q, u, hbound, hinner⟩
      · exact .inl ⟨_, .bound, run_of_required hf hbound⟩
      · exact .inl ⟨_, .inner (run_required_eq_ok.mp hbound),
          run_of_required hf (run_map_eq_error.mp hinner)⟩
    | assignment name value =>
      rw [evaluateNode, run_bind_eq_error] at h
      rcases h with hvalue | ⟨q, u, -, hassign⟩
      · exact .inl ⟨_, .assigned, run_of_required hf hvalue⟩
      · cases run_map_eq_error.mp hassign
    | unitDefinition name count value =>
      rw [evaluateNode] at h
      dsimp only at h
      split at h
      · cases h
        cases hf
      rcases run_bind_eq_error.mp h with hvalue | ⟨q, u, -, hdefine⟩
      · exact .inl ⟨_, .defined (Bool.eq_false_iff.mpr ‹_›), run_of_required hf hvalue⟩
      · exact absurd hf
          (kind_ne_of_run (UnitClass.defineUnit_keeps name _ (hall q)) (run_map_eq_error.mp hdefine))
    | functionDefinition => cases h
    | program statements =>
      rw [evaluateNode] at h
      obtain ⟨before, m, after, last, u, rfl, hbefore, hm⟩ := exists_statement_of_evaluateLast h
      exact .inl ⟨_, .statement hbefore, hm⟩
    | foreign =>
      cases h
      cases hf
    | _ => cases hn
  · rw [run, evaluateNode_operation _ _ hn] at h
    rcases run_bind_eq_error.mp h with hoperands | ⟨values, u, hvalues, hstep⟩
    · obtain ⟨before, m, after, qs, u, hm, hbefore, hrun⟩ := exists_operand_of_evaluateAll hf hoperands
      exact .inl ⟨_, .operand hn hm hbefore, hrun⟩
    rcases hcall : n.isCall with _ | _
    · rw [perform_of_not_call _ _ hcall] at hstep
      exact .inr (reads_of_step hn hcall hvalues hf hstep)
    · cases n with
      | call name arguments => exact .inl (enters_body_of_call hvalues hf (run_map_eq_error.mp hstep))
      | _ => cases hcall

/-! ## The whole evaluation -/

/-- What is entered is smaller, unless it is inside a call. -/
theorem Enters.decreases {p q : Point R S} (h : Enters p q) :
    q.limit < p.limit ∨ q.limit = p.limit ∧ sizeOf q.node < sizeOf p.node := by
  cases h with
  | @operand _ _ n _ _ _ _ _ _ _ hm =>
    have hpart := n.operands_subset_parts (hm ▸ List.mem_append_right _ List.mem_cons_self)
    exact .inr ⟨rfl, Node.sizeOf_lt_of_mem_parts hpart⟩
  | body => exact .inl (Nat.lt_succ_self _)
  | statement =>
    exact .inr ⟨rfl, Node.sizeOf_lt_of_mem_parts (List.mem_append_right _ List.mem_cons_self)⟩
  | _ => exact .inr ⟨rfl, by simp; try omega⟩

/-- No evaluation enters others for ever. -/
theorem enters_wellFounded : WellFounded fun q p : Point R S => Enters p q := by
  refine Subrelation.wf (r := InvImage (Prod.Lex (· < ·) (· < ·)) fun p => (p.limit, sizeOf p.node)) ?_
    (InvImage.wf _ (WellFounded.prod_lex Nat.lt_wfRel.wf Nat.lt_wfRel.wf))
  intro q p h
  exact Prod.lex_def.mpr h.decreases

/-- **An evaluation fails by its syntax exactly if it comes to a text that is refused as a unit.** -/
theorem run_parse_iff {p : Point R S} (hf : f.kind = .parse) : (∃ t, p.run = (.error f, t)) ↔
    ∃ q text, Reaches p q ∧ q.Reads text ∧ CompoundUnit.ofText text = .error f := by
  constructor
  · rintro ⟨t, h⟩
    induction p using (enters_wellFounded (R := R) (S := S)).induction with
    | _ p ih =>
      rcases enters_or_reads hf h with ⟨q, hpq, hq⟩ | ⟨text, hread, hrefused⟩
      · obtain ⟨r, text, hqr, hread, hrefused⟩ := ih q hpq hq
        exact ⟨r, text, .head hpq hqr, hread, hrefused⟩
      · exact ⟨p, text, .refl, hread, hrefused⟩
  · rintro ⟨q, text, hpq, hread, hrefused⟩
    obtain ⟨t, hq⟩ := hread.run_eq_error hf hrefused
    exact ⟨t, hpq.run_eq_error hq⟩

end Point

end Ballpark
