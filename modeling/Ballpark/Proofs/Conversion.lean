import Ballpark.Proofs.Recovery
import Ballpark.Proofs.SoundSession
import Ballpark.Proofs.UnitSpelling

/-!
# Conversions

A conversion brings a value into base units, into the unit of a text, or into a unit that the program
has defined. The first two only change the unit: the result can be converted in the same way again,
which changes nothing, and back, which restores the value (`Quantity.convert_idem`,
`Quantity.convert_back`). The third divides by the definition and puts the label of the unit on the
ratio. A label has a dimension of its own, so neither the definition nor the unit that the value had
before is of the dimension of the result (`Session.conversion_coherent`).
-/

namespace Ballpark

namespace Quantity

variable {q r v : Quantity ℝ} {u : CompoundUnit ℝ}

/-- A change of the unit that succeeds is between units of one dimension. -/
theorem convert_eq_ok (hq : q.unit.Known) (hu : u.Known) (h : q.convert u = .ok v) :
    q.dimension = u.dimension ∧ v = ⟨q.value.map (· * (q.unit.size / u.size)), u⟩ := by
  by_cases hdimension : q.dimension = u.dimension
  · exact ⟨hdimension, (Except.ok.inj ((convert_eq hq hu hdimension).symm.trans h)).symm⟩
  · obtain ⟨clash, hclash⟩ := convert_of_ne hdimension
    rw [hclash] at h
    cases h

/-- What is in a unit stays as it is when it is converted into that unit. -/
theorem convert_self (hq : q.unit.Known) : q.convert q.unit = .ok q := by
  rw [convert_eq hq hq rfl, div_self hq.size_pos.ne']
  have hone : (· * 1 : ℝ → ℝ) = id := funext mul_one
  rw [hone, Value.map_id]

/-- A second change into the same unit changes nothing. -/
theorem convert_idem (hq : q.unit.Known) (hu : u.Known) (h : q.convert u = .ok v) :
    v.convert u = .ok v := by
  obtain ⟨-, rfl⟩ := convert_eq_ok hq hu h
  exact convert_self hu

/-- A change of the unit can be undone. -/
theorem convert_back (hq : q.unit.Known) (hu : u.Known) (h : q.convert u = .ok v) :
    v.convert q.unit = .ok q := by
  obtain ⟨hdimension, rfl⟩ := convert_eq_ok hq hu h
  have hsame : Quantity.dimension ⟨q.value.map (· * (q.unit.size / u.size)), u⟩ = q.unit.dimension :=
    hdimension.symm
  rw [convert_eq hu hq hsame, Value.map_map]
  have hone : ((· * (u.size / q.unit.size)) ∘ (· * (q.unit.size / u.size)) : ℝ → ℝ) = id := by
    funext x
    have hqpos := hq.size_pos.ne'
    have hupos := hu.size_pos.ne'
    simp only [Function.comp_apply, id]
    field_simp
  rw [hone, Value.map_id]

/-- The way to base units is a change into the unit that has the dimension and is of size one. -/
theorem toBase_eq_convert (hq : q.unit.Known) : q.toBase = q.convert (.ofDimension q.dimension) := by
  have hbase : CompoundUnit.Makes q.dimension 1 (.ofDimension q.dimension) 1 :=
    CompoundUnit.ofDimension_spec q.unit.normal_dimension hq.tickFree
  have hsize : (CompoundUnit.ofDimension q.dimension : CompoundUnit ℝ).size = 1 := by
    rw [← hbase.size, one_mul]
  rw [convert_eq hq hbase.known hbase.dimension.symm, hsize, div_one, toBase, CompoundUnit.toBase,
    CompoundUnit.factor_eq hq]
  rfl

/-- Dividing two quantities of one dimension leaves a plain number. -/
theorem ratio_eq {a b : Quantity ℝ} (ha : a.Sound) (hb : b.Sound) (h : a.dimension = b.dimension) :
    ∃ r, a.divide b = .ok r ∧ r.isScalar = (a.isScalar && b.isScalar) ∧
      r.size = Max.max a.size b.size ∧
        ∀ i < Max.max a.size b.size, r.value.particle i = a.inBase i / b.inBase i := by
  obtain ⟨r, hr, hcombines⟩ := divide_combines ha hb
  have hplain : r.unit.isPlain = true := by
    refine CompoundUnit.isPlain_iff_power.mpr fun x => ?_
    have hdimension : r.unit.dimension = a.dimension.divide b.dimension := hcombines.dimension
    rw [hdimension, h, Dimension.power_divide, sub_self]
  refine ⟨r, hr, hcombines.isScalar, hcombines.size, fun i hi => ?_⟩
  rw [← hcombines.inBase i hi, inBase, hcombines.sound.canonical.eq_one hplain, CompoundUnit.size_one,
    mul_one]

end Quantity

/-! ## Labels -/

namespace CompoundUnit

/-- A label on its own. -/
noncomputable def ofLabel (label : String) : CompoundUnit ℝ :=
  ⟨[⟨label, (UnitMeaning.label (UnitName.labelName label)).toUnit, 1⟩]⟩

theorem dimension_ofLabel (label : String) :
    (ofLabel label).dimension = Dimension.label (UnitName.labelName label) := by
  refine Dimension.ext_power (normal_dimension _) (Dimension.normal_label _) fun x => ?_
  rw [ofLabel, power_dimension_cons, power_dimension_nil, UnitMeaning.toUnit_dimension,
    UnitMeaning.dimension]
  simp

/-- A tick and a name. -/
structure IsLabel (label name : String) : Prop where
  text : label.toList = '\'' :: name.toList
  isName : UnitToken.IsName label.toList

theorem labelName_of_isLabel {label name : String} (h : IsLabel label name) :
    UnitName.labelName label = name := by
  have hname := h.isName
  rw [h.text] at hname
  rw [UnitName.labelName, h.text, List.dropWhile_cons_of_pos (by decide)]
  generalize hrest : name.toList = rest at hname
  cases hname with
  | plain hc => exact absurd hc (by decide)
  | @label c rest hc =>
    -- a name starts with no tick
    have htick : (c == '\'') = false := by
      refine beq_eq_false_iff_ne.mpr ?_
      rintro rfl
      exact absurd hc (by decide)
    rw [List.dropWhile_cons_of_neg (by simp [htick]), ← hrest, String.ofList_toList]

/-- A text of one name is read as the unit that the name stands for. -/
theorem ofText_name {name : String} {m : UnitMeaning} (hname : UnitToken.IsName name.toList)
    (hper : name ≠ "per") (h : UnitName.resolve? name = some ⟨m, none, name⟩)
    (hdimensional : m.dimension.isOne = false) :
    ofText name = .ok ((⟨[⟨name, m.toUnit, 1⟩]⟩, 1) : CompoundUnit ℝ × ℝ) := by
  have hspelled : UnitToken.Spelled [.name name] name.toList := by
    have hend : UnitToken.Stops UnitToken.continuesName [] := fun d hd => nomatch hd
    simpa using UnitToken.Spelled.cons (fun _ hd => absurd hd List.not_mem_nil)
      (.name hname hper hend) .nil
  obtain ⟨hsome, htokens⟩ := UnitToken.ofText_spelled (R := ℝ) hspelled
    (fun _ hd => absurd hd List.not_mem_nil) (List.append_nil _).symm
  have hterms : canonicalize [⟨name, m.toUnit, 1⟩] =
      .ok ((⟨[⟨name, m.toUnit, 1⟩]⟩, Scalar.ofNat 1) : CompoundUnit ℝ × ℝ) :=
    canonicalize_canonical (Quantity.sound_named h hdimensional (.scalar 1)).canonical
  have hscale : (ResolvedName.scale ⟨m, none, name⟩ : ℝ) = 1 :=
    (Scalar.ofNat_real 1).trans Nat.cast_one
  rw [ofText, hsome]
  simp only [htokens, Session.all_name h, hterms, hscale, bind, Except.bind, pure, Except.pure,
    Scalar.ofNat_real, Nat.cast_one, mul_one]
  rfl

/-- **A label is read as a unit of its own.** -/
theorem ofText_label {label name : String} (h : IsLabel label name) :
    ofText label = .ok (ofLabel label, 1) := by
  have hper : label ≠ "per" := by
    rintro rfl
    cases h.text
  have hresolve : UnitName.resolve? label = some ⟨.label (UnitName.labelName label), none, label⟩ := by
    rw [UnitName.resolve?, h.text]
    rfl
  exact ofText_name h.isName hper hresolve
    (by simp [UnitMeaning.dimension, Dimension.isOne, Dimension.label])

end CompoundUnit

namespace Session

/-! ## What a target stands for -/

/-- A target that only changes the unit: it asks for base units, or the program has not defined it. -/
def OnlyChangesUnit (units : Bindings (Quantity ℝ)) (target : String) : Prop :=
  Text.trimText target = "SI" ∨ units.get? (Text.trimText target) = none

/-- A target that the program has defined as a unit. -/
structure IsDefinedAs (units : Bindings (Quantity ℝ)) (target : String) (definition : Quantity ℝ) :
    Prop where
  notBase : Text.trimText target ≠ "SI"
  defined : units.get? (Text.trimText target) = some definition

/-- A value that counts how many of a definition another one is: its unit is the label, and times the
definition it is the other value, particle by particle. -/
structure Counts (label : String) (definition q v : Quantity ℝ) : Prop where
  /-- the unit is what the label means on its own -/
  unit : ∃ scale, CompoundUnit.ofText label = .ok (v.unit, scale)
  isScalar : v.isScalar = (q.isScalar && definition.isScalar)
  size : v.size = max q.size definition.size
  restores : ∀ i < v.size, v.value.particle i * definition.inBase i = q.inBase i

variable {units : Bindings (Quantity ℝ)} {q v definition : Quantity ℝ} {target : String}

/-- All values of a dimension are brought into the same unit, which is known by name. -/
theorem convertTo_eq_convert (honly : OnlyChangesUnit units target) (hq : q.unit.Known)
    (hv : convertTo units q target = .ok v) : ∃ u : CompoundUnit ℝ, u.Known ∧
      ∀ r : Quantity ℝ, r.unit.Known → r.dimension = q.dimension →
        convertTo units r target = r.convert u := by
  by_cases hbase : Text.trimText target = "SI"
  · refine ⟨.ofDimension q.dimension,
      (CompoundUnit.ofDimension_spec q.unit.normal_dimension hq.tickFree).known,
      fun r hr hdimension => ?_⟩
    have hto : convertTo units r target = r.toBase := by
      rw [convertTo, hbase]
      rfl
    rw [hto, Quantity.toBase_eq_convert hr, hdimension]
  · have hto : ∀ r, convertTo units r target = r.convertTo (Text.trimText target) := by
      intro r
      rw [convertTo, if_neg (by simpa using hbase), honly.resolve_left hbase]
    rcases htext : CompoundUnit.ofText (R := ℝ) (Text.trimText target) with e | ⟨u, scale⟩
    · rw [hto, Quantity.convertTo, htext] at hv
      cases hv
    · refine ⟨u, (CompoundUnit.ofText_sound htext).1, fun r _ _ => ?_⟩
      rw [hto, Quantity.convertTo, htext]
      rfl

/-- A change of the unit, once more: nothing changes. -/
theorem convertTo_idem (honly : OnlyChangesUnit units target) (hq : q.unit.Known)
    (hv : convertTo units q target = .ok v) : convertTo units v target = .ok v := by
  obtain ⟨u, hu, hconvert⟩ := convertTo_eq_convert honly hq hv
  rw [hconvert q hq rfl] at hv
  obtain ⟨hdimension, hvalue⟩ := Quantity.convert_eq_ok hq hu hv
  have hunit : v.unit = u := by rw [hvalue]
  have hsame : v.dimension = q.dimension := by rw [hdimension, Quantity.dimension, hunit]
  rw [hconvert v (hunit ▸ hu) hsame]
  exact Quantity.convert_idem hq hu hv

/-- A change of the unit, undone. -/
theorem convertTo_back (honly : OnlyChangesUnit units target) (hq : q.unit.Known)
    (hv : convertTo units q target = .ok v) : v.convert q.unit = .ok q := by
  obtain ⟨u, hu, hconvert⟩ := convertTo_eq_convert honly hq hv
  rw [hconvert q hq rfl] at hv
  exact Quantity.convert_back hq hu hv

/-- A unit that the program has defined, if its label can be read, measures exactly the values of its
definition's dimension. -/
theorem convertTo_defined {label : CompoundUnit ℝ} {scale : ℝ} (hq : q.Sound)
    (hdefinition : definition.Sound) (hdefined : IsDefinedAs units target definition)
    (hnonzero : ∀ i, definition.inBase i ≠ 0)
    (hlabel : CompoundUnit.ofText (Text.trimText target) = .ok (label, scale)) :
    Quantity.ExactlyIf (q.dimension = definition.dimension) (convertTo units q target)
      (Counts (Text.trimText target) definition q) := by
  have hto : convertTo units q target = do
      let ratio ← (← q.convert definition.unit).divide definition
      return ⟨ratio.value, (← CompoundUnit.ofText (Text.trimText target)).1⟩ := by
    rw [convertTo, if_neg (by simpa using hdefined.notBase), hdefined.defined]
  rw [hto]
  constructor
  · intro hdimension
    -- in the unit of the definition the value is its count of definitions
    obtain ⟨p, hp, -, hmaps⟩ :=
      Quantity.convert_mapsTo hq.known hdefinition.known hdefinition.canonical hdimension
    obtain ⟨r, hr, hscalar, hsize, hratio⟩ :=
      -- the ratio of two values of one dimension is a plain number in each particle
      Quantity.ratio_eq hmaps.sound hdefinition (hmaps.dimension.trans hdimension)
    rw [hmaps.isScalar] at hscalar
    rw [hmaps.size] at hsize hratio
    refine ⟨⟨r.value, label⟩, ?_, ⟨scale, hlabel⟩, hscalar, hsize, fun i hi => ?_⟩
    · rw [hp]
      show (p.divide definition >>= _) = _
      rw [hr, hlabel]
      rfl
    · have hparticle : r.value.particle i = q.inBase i / definition.inBase i := by
        rw [hratio i (hsize ▸ hi), hmaps.inBase, id]
      rw [hparticle, div_mul_cancel₀ _ (hnonzero i)]
  · intro hdimension
    obtain ⟨clash, hclash⟩ := Quantity.convert_of_ne hdimension
    exact ⟨clash, by rw [hclash]; rfl⟩

/-- The label of a target that a value has been converted to can be read. -/
theorem label_of_convertTo (hdefined : IsDefinedAs units target definition)
    (hv : convertTo units q target = .ok v) :
    ∃ scale, CompoundUnit.ofText (Text.trimText target) = .ok (v.unit, scale) := by
  rw [convertTo, if_neg (by simpa using hdefined.notBase), hdefined.defined] at hv
  obtain ⟨p, -, hv⟩ := ok_of_bind hv
  obtain ⟨ratio, -, hv⟩ := ok_of_bind hv
  obtain ⟨⟨label, scale⟩, hlabel, hv⟩ := ok_of_bind hv
  cases hv
  exact ⟨scale, hlabel⟩

/-! ## Conversions of variables -/

variable {S : Type} [RandomSource S ℝ]

/-- The conversion of a variable is that of its value, and the session stays as it is. -/
theorem run_conversion_variable {s : Session ℝ S} {x : String} (hx : s.values.get? x = some q)
    (target : String) : (evaluateTree (.conversion (.identifier x) target)).run s =
      (some <$> convertTo s.units q target, s) := by
  rw [evaluateTree, evaluateWithin, evaluateNode,
    Evaluation.run_bind_of_ok (run_required_variable hx _)]
  have hrun := run_withUnits (S := S) (convertTo · q target) s
  rcases hto : convertTo s.units q target with e | v
  · rw [hto] at hrun
    exact Evaluation.run_map_of_error hrun
  · rw [hto] at hrun
    exact Evaluation.run_some_eq_ok.mpr hrun

theorem outcome_conversion_variable {s : Session ℝ S} {x : String}
    (hx : s.values.get? x = some q) (target : String) :
    outcome (.conversion (.identifier x) target) s = some <$> convertTo s.units q target := by
  rw [outcome, run_conversion_variable hx]

/-- **What conversions can be gone on with.** The value of a variable has been converted, and a variable
is set to the result.

If the target only changes the unit, the same conversion of the result gives the result, and the result
can be brought back into the first unit, where it has the particles that it came from.

If the program has defined the target by a quantity that is nowhere zero, the result counts how many
of it make the value; its unit is what the label means on its own, and a label has a dimension of its
own. So unless the definition is of this very dimension, both ways to go on clash; if it is, both
succeed. -/
theorem conversion_coherent {s : Session ℝ S} (hs : s.Reachable) {x target : String}
    {q v : Quantity ℝ} (hx : s.values.get? x = some q)
    (hv : outcome (.conversion (.identifier x) target) s = .ok (some v)) (y : String) :
    (OnlyChangesUnit s.units target →
      outcome (.conversion (.identifier y) target) (s.setVariable y v) = .ok (some v) ∧
        v.convert q.unit = .ok q) ∧
    ∀ definition, IsDefinedAs s.units target definition → (∀ i, definition.inBase i ≠ 0) →
      Counts (Text.trimText target) definition q v ∧
      (∀ name, CompoundUnit.IsLabel (Text.trimText target) name → v.dimension = .label name) ∧
      (v.dimension ≠ definition.dimension →
        (∃ clash, outcome (.conversion (.identifier y) target) (s.setVariable y v) =
          .error (.units clash)) ∧ ∃ clash, v.convert q.unit = .error (.units clash)) ∧
      (v.dimension = definition.dimension →
        (∃ w, outcome (.conversion (.identifier y) target) (s.setVariable y v) = .ok (some w) ∧
          Counts (Text.trimText target) definition v w) ∧ ∃ r, v.convert q.unit = .ok r) := by
  have hvalues := hs.sound.2.values
  have hq : q.Sound := UnitClass.val_canonical.mp (hvalues x q hx)
  rw [outcome_conversion_variable hx] at hv
  have hconverted : convertTo s.units q target = .ok v := by
    rcases hto : convertTo s.units q target with e | w
    · rw [hto] at hv
      cases hv
    · rw [hto] at hv
      cases hv
      rfl
  have hy : (s.setVariable y v).values.get? y = some v := by
    rw [setVariable, Bindings.get?_set, if_pos rfl]
  have hunits : (s.setVariable y v).units = s.units := rfl
  rw [outcome_conversion_variable hy, hunits]
  refine ⟨fun honly => ?_, fun definition hdefined hnonzero => ?_⟩
  · rw [convertTo_idem honly hq.known hconverted]
    exact ⟨rfl, convertTo_back honly hq.known hconverted⟩
  · have hdefinition : definition.Sound := hs.unitsSound _ _ hdefined.defined
    obtain ⟨scale, hlabel⟩ := label_of_convertTo hdefined hconverted
    have hvsound : v.Sound := by
      obtain ⟨hknown, hcanonical⟩ := CompoundUnit.ofText_sound hlabel
      exact ⟨hknown, hcanonical⟩
    have hfirst := convertTo_defined hq hdefinition hdefined hnonzero hlabel
    have hsecond := convertTo_defined hvsound hdefinition hdefined hnonzero hlabel
    -- the first conversion has succeeded
    have hdimension : q.dimension = definition.dimension := by
      by_contra hne
      obtain ⟨clash, hclash⟩ := hfirst.fails hne
      rw [hclash] at hconverted
      cases hconverted
    obtain ⟨v', hv', hcounts⟩ := hfirst.succeeds hdimension
    rw [Except.ok.inj (hv'.symm.trans hconverted)] at hcounts
    refine ⟨hcounts, fun name hname => ?_, fun hne => ?_, fun heq => ?_⟩
    · have hunit : v.unit = .ofLabel (Text.trimText target) :=
        congrArg Prod.fst (Except.ok.inj (hlabel.symm.trans (CompoundUnit.ofText_label hname)))
      rw [Quantity.dimension, hunit, CompoundUnit.dimension_ofLabel,
        CompoundUnit.labelName_of_isLabel hname]
    · obtain ⟨clash, hclash⟩ := hsecond.fails hne
      refine ⟨⟨clash, by rw [hclash]; rfl⟩, Quantity.convert_of_ne fun hback => hne ?_⟩
      exact hback.trans hdimension
    · obtain ⟨w, hw, hwcounts⟩ := hsecond.succeeds heq
      obtain ⟨r, hr, -⟩ := Quantity.convert_mapsTo hvsound.known hq.known hq.canonical
        (heq.trans hdimension.symm)
      exact ⟨⟨w, by rw [hw]; rfl, hwcounts⟩, r, hr⟩

/-! ## Widgets -/

/-- The unit that a kilogram is. -/
def kilogram : UnitMeaning :=
  .entry (.withPrefix ⟨"kilo", "k", 3⟩
    ⟨"gram", ["g", "gramme"], ["grams", "grammes"], [(.mass, 1)], .exact (1 / 1000), true⟩)

/-- A number of kilograms. -/
noncomputable def kilograms (x : ℝ) : Quantity ℝ :=
  .named (.scalar x) "kg" kilogram

theorem sound_kilograms (x : ℝ) : (kilograms x).Sound :=
  Quantity.sound_named (by decide +kernel : UnitName.resolve? "kg" = some ⟨kilogram, none, "kg"⟩)
    (by decide +kernel) _

theorem inBase_kilograms_ne {x : ℝ} (hx : x ≠ 0) (i : Nat) : (kilograms x).inBase i ≠ 0 := by
  have hparticle : (kilograms x).value.particle i = x := Value.particle_scalar x i
  rw [Quantity.inBase, hparticle]
  exact mul_ne_zero hx (sound_kilograms x).known.size_pos.ne'

theorem dimension_kilograms (x : ℝ) : (kilograms x).dimension ≠ .label "widget" := by
  have hmass : (kilograms x).dimension = Dimension.one.multiply (kilogram.dimension.pow 1) := rfl
  rw [hmass]
  decide +kernel

theorem isLabel_widget : CompoundUnit.IsLabel "'widget" "widget" :=
  ⟨by decide, .label (by decide) (List.all_eq_true.mp (by decide))⟩

theorem reachable_fresh : Reachable fresh := by
  have hmass : (Scalar.isPositive (0.9 : ℝ) && Scalar.lt (0.9 : ℝ) (Scalar.ofNat 1)) = true := by
    norm_num
  have hcheck : SettingsRequest.check ⟨none, some (.decimal 0.9), none⟩ = .ok fresh.settings :=
    if_pos hmass
  exact .start hcheck _

/-- A session in which a widget is defined by its mass, and `x` is a mass. -/
noncomputable def widgets (size mass : ℝ) : Session ℝ (ConstantSource ℝ) :=
  (next (.unitDefinition "'widget" ⟨false, 1, 0⟩ (.identifier "d"))
    (fresh.setVariable "d" (kilograms size))).setVariable "x" (kilograms mass)

section

variable (size mass : ℝ)

theorem reachable_widgets : Reachable (widgets size mass) :=
  .setVariable (.evaluate (.setVariable reachable_fresh "d" (sound_kilograms size)) _) "x"
    (sound_kilograms mass)

theorem units_widgets : (widgets size mass).units.get? "'widget" = some (kilograms size) := by
  have hd : (fresh.setVariable "d" (kilograms size)).values.get? "d" = some (kilograms size) := by
    rw [setVariable, Bindings.get?_set, if_pos rfl]
  have hcount : (Scalar.ofDecimal ⟨false, 1, 0⟩ : ℝ) = 1 := by
    rw [Scalar.ofDecimal_real, (by decide : Decimal.value ⟨false, 1, 0⟩ = 1), Rat.cast_one]
  have hone : unitOf "'widget" (1 : ℝ) (kilograms size) = .ok (kilograms size) := by
    rw [unitOf, Scalar.isZero_real, Scalar.eq_real, Scalar.ofNat_real]
    simp
  have hdefine : (defineUnit "'widget" (1 : ℝ) (kilograms size)).run (fresh.setVariable "d" (kilograms size)) =
      (.ok (kilograms size), { fresh.setVariable "d" (kilograms size) with
        units := Bindings.empty.set "'widget" (kilograms size) }) := by
    rw [defineUnit, hone]
    rfl
  rw [widgets, next, evaluateTree, evaluateWithin, evaluateNode]
  simp only [hcount, Scalar.isZero_real, one_ne_zero, decide_false, Bool.false_eq_true, if_false]
  rw [Evaluation.run_bind_of_ok (run_required_variable hd _), Evaluation.run_some_eq_ok.mpr hdefine,
    setVariable, Bindings.get?_set, if_pos rfl]

theorem values_widgets : (widgets size mass).values.get? "x" = some (kilograms mass) := by
  rw [widgets, setVariable, Bindings.get?_set, if_pos rfl]

theorem widget_isDefined : IsDefinedAs (widgets size mass).units "'widget" (kilograms size) := by
  have htrim : Text.trimText "'widget" = "'widget" := by decide
  exact ⟨by decide, htrim.symm ▸ units_widgets size mass⟩

end

/-- A mass is a number of widgets that have one. -/
theorem convertTo_widget {size : ℝ} (hsize : size ≠ 0) (mass : ℝ) : ∃ v,
    outcome (.conversion (.identifier "x") "'widget") (widgets size mass) = .ok (some v) ∧
      Counts "'widget" (kilograms size) (kilograms mass) v ∧ v.dimension = .label "widget" := by
  have htrim : Text.trimText "'widget" = "'widget" := by decide
  have hread := CompoundUnit.ofText_label isLabel_widget
  have hexactly := convertTo_defined (sound_kilograms mass) (sound_kilograms size)
    (widget_isDefined size mass) (inBase_kilograms_ne hsize) (htrim.symm ▸ hread)
  obtain ⟨v, hv, hcounts⟩ := hexactly.succeeds rfl
  rw [htrim] at hcounts
  obtain ⟨scale, hscale⟩ := hcounts.unit
  have hunit : v.unit = .ofLabel "'widget" :=
    congrArg Prod.fst (Except.ok.inj (hscale.symm.trans hread))
  refine ⟨v, ?_, hcounts, ?_⟩
  · rw [outcome_conversion_variable (values_widgets size mass), hv]
    rfl
  · rw [Quantity.dimension, hunit, CompoundUnit.dimension_ofLabel,
      CompoundUnit.labelName_of_isLabel isLabel_widget]

/-- What counts widgets is no quantity of widgets: it can neither be counted in widgets once more nor
be brought back into kilograms. -/
theorem widgets_not_converted_again :
    ¬∀ (s : Session ℝ (ConstantSource ℝ)) (x y target : String) (q v definition : Quantity ℝ),
      s.Reachable → s.values.get? x = some q → IsDefinedAs s.units target definition →
      (∀ i, definition.inBase i ≠ 0) →
      outcome (.conversion (.identifier x) target) s = .ok (some v) →
      outcome (.conversion (.identifier y) target) (s.setVariable y v) = .ok (some v) ∧
        v.convert q.unit = .ok q := by
  intro hclaim
  have hfive : (5 : ℝ) ≠ 0 := by norm_num
  obtain ⟨v, hv, -, hdimension⟩ := convertTo_widget hfive 20
  have hback := (hclaim (widgets 5 20) "x" "y" "'widget" (kilograms 20) v (kilograms 5)
    (reachable_widgets 5 20) (values_widgets 5 20) (widget_isDefined 5 20) (inBase_kilograms_ne hfive) hv).2
  obtain ⟨clash, hclash⟩ := Quantity.convert_of_ne (u := (kilograms 20).unit)
    (hdimension.trans_ne (dimension_kilograms 20).symm)
  rw [hclash] at hback
  cases hback

/-- Twenty kilograms in base units, which they can be brought back from, and in widgets, which they
cannot. -/
theorem widgets_counted :
    (∃ v, outcome (.conversion (.identifier "x") "SI") (widgets 5 20) = .ok (some v) ∧
      outcome (.conversion (.identifier "y") "SI") ((widgets 5 20).setVariable "y" v) = .ok (some v) ∧
        v.convert (kilograms 20).unit = .ok (kilograms 20)) ∧
    ∃ v, outcome (.conversion (.identifier "x") "'widget") (widgets 5 20) = .ok (some v) ∧
      v.value.particle 0 * (kilograms 5).inBase 0 = (kilograms 20).inBase 0 ∧
        ∃ clash, v.convert (kilograms 20).unit = .error (.units clash) := by
  have hbase : Text.trimText "SI" = "SI" := by decide
  constructor
  · obtain ⟨v, hv, -⟩ := Quantity.toBase_mapsTo (sound_kilograms 20).known
    have hto : convertTo (widgets 5 20).units (kilograms 20) "SI" = .ok v := by
      rw [convertTo, hbase]
      exact hv
    have houtcome : outcome (.conversion (.identifier "x") "SI") (widgets 5 20) = .ok (some v) := by
      rw [outcome_conversion_variable (values_widgets 5 20), hto]
      rfl
    exact ⟨v, houtcome,
      (conversion_coherent (reachable_widgets 5 20) (values_widgets 5 20) houtcome "y").1 (.inl hbase)⟩
  · have hfive : (5 : ℝ) ≠ 0 := by norm_num
    obtain ⟨v, hv, -, hdimension⟩ := convertTo_widget hfive 20
    obtain ⟨hcounts, -, hclash, -⟩ := (conversion_coherent (reachable_widgets 5 20) (values_widgets 5 20)
      hv "y").2 _ (widget_isDefined 5 20) (inBase_kilograms_ne hfive)
    exact ⟨v, hv, hcounts.restores 0 v.value.size_pos,
      (hclash (hdimension.trans_ne (dimension_kilograms 5).symm)).2⟩

end Session

end Ballpark
