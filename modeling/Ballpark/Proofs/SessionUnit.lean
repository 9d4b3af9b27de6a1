import Ballpark.Proofs.QuantityArithmetic
import Ballpark.Proofs.UnitText
import Ballpark.Session.Range

/-!
# The units of a session

A unit text is read in a session whose program may have defined labels. If the definitions are sound,
so is the quantity that the text stands for: either a definition has been multiplied in, and the
product is in canonical form, or none has, and the unit is the one that was read
(`Session.unitQuantity_sound`).

A text that is a counting word stands for its number, whatever the session has defined
(`Session.unitQuantity_countingWord`).
-/

namespace Ballpark

namespace Quantity

theorem multiply_sound {a b r : Quantity ℝ} (ha : a.unit.Known) (hb : b.unit.Known)
    (h : a.multiply b = .ok r) : r.Sound := by
  obtain ⟨w, scale, hw, hmakes⟩ := CompoundUnit.multiply_spec ha hb
  rw [multiply, hw] at h
  cases h
  exact ⟨hmakes.known, hmakes.canonical⟩

theorem pow_sound {q r : Quantity ℝ} (hq : q.Sound) (k : Rat) (h : q.pow (k : ℝ) = .ok r) :
    r.Sound := by
  obtain ⟨w, hw, hmakes⟩ := CompoundUnit.pow_spec hq.known hq.canonical k
  rw [pow, hw] at h
  cases h
  exact ⟨hmakes.known, hmakes.canonical⟩

end Quantity

namespace Session

/-! ## Definitions of the program -/

/-- Every unit that the program has defined is a sound quantity. -/
def UnitsSound (units : Bindings (Quantity ℝ)) : Prop :=
  ∀ name q, units.get? name = some q → q.Sound

theorem unitsSound_empty : UnitsSound .empty :=
  fun _ _ h => nomatch h

theorem substitute_of_none {units : Bindings (Quantity ℝ)} {q : Quantity ℝ} {t : UnitTerm ℝ}
    (h : units.get? t.unit.base = none) : substitute units q t = .ok q := by
  rw [substitute, h]
  rfl

theorem substitute_sound {units : Bindings (Quantity ℝ)} (hunits : UnitsSound units)
    {q r definition : Quantity ℝ} (hq : q.unit.Known) {t : UnitTerm ℝ}
    (hdefined : units.get? t.unit.base = some definition) (h : substitute units q t = .ok r) :
    r.Sound := by
  have hdefinition := hunits _ _ hdefined
  rw [substitute, hdefined] at h
  simp only [Checked.ofRat_real, bind, Except.bind] at h
  rcases hpow : definition.pow (t.power : ℝ) with e | p
  · rw [hpow] at h
    cases h
  · rw [hpow] at h
    exact Quantity.multiply_sound hq (Quantity.pow_sound hdefinition _ hpow).known h

/-- Taking definitions in gives a sound quantity, or changes nothing because there was none to take. -/
theorem foldlM_substitute {units : Bindings (Quantity ℝ)} (hunits : UnitsSound units)
    {ts : List (UnitTerm ℝ)} {q r : Quantity ℝ} (hq : q.unit.Known)
    (h : ts.foldlM (substitute units) q = .ok r) :
    r.Sound ∨ r = q ∧ ∀ t ∈ ts, units.get? t.unit.base = none := by
  induction ts generalizing q with
  | nil =>
    cases h
    exact .inr ⟨rfl, fun _ ht => absurd ht List.not_mem_nil⟩
  | cons t rest ih =>
    rw [List.foldlM_cons] at h
    rcases hdefined : units.get? t.unit.base with _ | definition
    · rw [substitute_of_none hdefined] at h
      refine (ih hq h).imp id fun ⟨hsame, hrest⟩ => ⟨hsame, ?_⟩
      exact List.forall_mem_cons.mpr ⟨hdefined, hrest⟩
    · rcases hnext : substitute units q t with e | p
      · rw [hnext] at h
        cases h
      · rw [hnext] at h
        have hp : p.Sound := substitute_sound hunits hq hdefined hnext
        refine .inl ((ih hp.known h).elim id fun ⟨hsame, _⟩ => ?_)
        rw [hsame]
        exact hp

theorem filter_undefined {units : Bindings (Quantity ℝ)} {ts : List (UnitTerm ℝ)}
    (h : ∀ t ∈ ts, units.get? t.unit.base = none) :
    ts.filter (fun t => !units.contains t.unit.base) = ts := by
  refine List.filter_eq_self.mpr fun t ht => ?_
  rw [Bindings.contains, h t ht]
  rfl

/-- **What a unit text stands for** in a session with sound definitions is a sound quantity. -/
theorem unitQuantity_sound {units : Bindings (Quantity ℝ)} (hunits : UnitsSound units) {text : String}
    {q : Quantity ℝ} (h : unitQuantity units text = .ok q) : q.Sound := by
  rw [unitQuantity] at h
  rcases htext : CompoundUnit.ofText (R := ℝ) text with e | ⟨u, scale⟩
  · rw [htext] at h
    cases h
  · rw [htext] at h
    obtain ⟨hknown, hcanonical⟩ := CompoundUnit.ofText_sound htext
    have hpart : CompoundUnit.Known ⟨u.terms.filter fun t => !units.contains t.unit.base⟩ :=
      fun t ht => hknown t (List.mem_of_mem_filter ht)
    rcases foldlM_substitute hunits hpart h with hq | ⟨hsame, hnone⟩
    · exact hq
    · rw [hsame, filter_undefined hnone]
      exact ⟨hknown, hcanonical⟩

/-- A text with no factor that the program defines stands for the unit that is read. -/
theorem unitQuantity_foreign {units : Bindings (Quantity ℝ)} {text : String} {u : CompoundUnit ℝ}
    {scale : ℝ} (htext : CompoundUnit.ofText text = .ok (u, scale))
    (hforeign : ∀ t ∈ u.terms, units.get? t.unit.base = none) :
    unitQuantity units text = .ok ⟨.scalar scale, u⟩ := by
  have hfold : ∀ (ts : List (UnitTerm ℝ)) (q : Quantity ℝ), (∀ t ∈ ts, units.get? t.unit.base = none) →
      ts.foldlM (substitute units) q = .ok q := by
    intro ts q hts
    induction ts with
    | nil => rfl
    | cons t rest ih =>
      rw [List.foldlM_cons, substitute_of_none (hts t List.mem_cons_self)]
      exact ih fun t' ht' => hts t' (List.mem_cons_of_mem _ ht')
  rw [unitQuantity, htext]
  simp only [bind, Except.bind]
  rw [filter_undefined hforeign, hfold _ _ hforeign]

/-! ## Counting words -/

theorem countingWords_read : ∀ w ∈ Vocabulary.countingWords,
    (UnitToken.ofText (R := ℝ) w.1).toOption = some [.name w.1] ∧
      UnitName.resolve? w.1 = some ⟨.entry (.count w.1 w.2), none, w.1⟩ ∧ w.1.isEmpty = false := by
  decide +kernel

/-- A single name is read as the factor that it stands for: down the grammar to the atom, and nothing
is left on the way back. -/
theorem all_name {unit name : String} {r : ResolvedName} (h : UnitName.resolve? name = some r) :
    UnitReader.all (R := ℝ) unit [.name name] =
      .ok ⟨[⟨r.symbol, r.meaning.toUnit, 1⟩], r.scale⟩ := by
  have hatom : ∀ limit, (UnitReader.atom (R := ℝ) unit (limit + 1)).run [.name name] =
      .ok (⟨[⟨r.symbol, r.meaning.toUnit, 1⟩], r.scale⟩, []) := by
    intro limit
    have hnamed : (liftM (UnitReader.named (R := ℝ) name) : UnitReader ℝ (ScaledTerms ℝ)).run [] =
        .ok (⟨[⟨r.symbol, r.meaning.toUnit, 1⟩], r.scale⟩, []) := by
      rw [UnitReader.named, h]
      rfl
    -- the text has one token, which the atom takes
    rw [UnitReader.atom, StateT.run_bind]
    exact hnamed
  have hpower : ∀ limit, (UnitReader.power (R := ℝ) unit (limit + 2)).run [.name name] =
      .ok (⟨[⟨r.symbol, r.meaning.toUnit, 1⟩], r.scale⟩, []) := by
    intro limit
    rw [UnitReader.power, StateT.run_bind, hatom]
    rfl
  have hproduct : ∀ limit, (UnitReader.product (R := ℝ) unit (limit + 3)).run [.name name] =
      .ok (⟨[⟨r.symbol, r.meaning.toUnit, 1⟩], r.scale⟩, []) := by
    intro limit
    rw [UnitReader.product, StateT.run_bind, hpower]
    rfl
  have hquotient : ∀ limit, (UnitReader.quotient (R := ℝ) unit (limit + 4)).run [.name name] =
      .ok (⟨[⟨r.symbol, r.meaning.toUnit, 1⟩], r.scale⟩, []) := by
    intro limit
    rw [UnitReader.quotient, StateT.run_bind, hproduct]
    rfl
  rw [UnitReader.all, List.length_singleton, hquotient]
  rfl

/-- A count is folded out of a unit: what is left is the unit of plain numbers, and the count. -/
theorem canonicalize_count {word : String} {c : Rat}
    (h : UnitName.resolve? word = some ⟨.entry (.count word c), none, word⟩) :
    CompoundUnit.canonicalize [⟨word, (UnitMeaning.entry (.count word c)).toUnit, 1⟩] =
      .ok ((.one, (c : ℝ)) : CompoundUnit ℝ × ℝ) := by
  have hknown : CompoundUnit.Known (R := ℝ)
      ⟨[⟨word, (UnitMeaning.entry (.count word c)).toUnit, 1⟩]⟩ := by
    intro t ht
    rw [List.mem_singleton.mp ht]
    exact ⟨word, _, h, rfl⟩
  obtain ⟨u, scale, hu, hspec⟩ := CompoundUnit.canonicalize_spec hknown
  have hplain : u.isPlain = true := by
    have hcount : ((UnitMeaning.entry (.count word c)).toUnit : NamedUnit ℝ).dimension =
        Dimension.one := rfl
    refine CompoundUnit.isPlain_iff_power.mpr fun x => ?_
    rw [hspec.dimension, CompoundUnit.power_dimension_cons, CompoundUnit.power_dimension_nil, hcount,
      Dimension.power_one, zero_mul, add_zero]
  obtain rfl := hspec.canonical.eq_one hplain
  have hscale : scale = c := by
    have hsize := hspec.size
    rw [CompoundUnit.size_one, mul_one, CompoundUnit.size_cons, CompoundUnit.size_nil, mul_one,
      Rat.cast_one, Real.rpow_one] at hsize
    exact hsize
  rw [hu, hscale]

theorem ofText_countingWord {text : String} {c : Rat}
    (h : Vocabulary.countingWord? (Text.trimText text) = some c) :
    CompoundUnit.ofText text = .ok ((.one, (c : ℝ)) : CompoundUnit ℝ × ℝ) := by
  obtain ⟨w, hfind, rfl⟩ := Option.map_eq_some_iff.mp h
  have hword : w.1 = Text.trimText text := by
    have hfound := List.find?_some hfind
    exact beq_iff_eq.mp hfound
  obtain ⟨htokens, hresolve, hempty⟩ := countingWords_read w (List.mem_of_find?_eq_some hfind)
  -- the table is checked up to `toOption`, for faults over the reals cannot be compared
  have hscan : UnitToken.ofText (R := ℝ) w.1 = .ok [.name w.1] := by
    rcases hcase : UnitToken.ofText (R := ℝ) w.1 with e | tokens
    · rw [hcase] at htokens
      cases htokens
    · rw [hcase] at htokens
      exact congrArg Except.ok (Option.some.inj htokens)
  have hscale : (ResolvedName.scale ⟨.entry (.count w.1 w.2), none, w.1⟩ : ℝ) = 1 :=
    (Scalar.ofNat_real 1).trans Nat.cast_one
  rw [CompoundUnit.ofText, ← hword]
  simp only [hempty, hscan, all_name hresolve, canonicalize_count hresolve, hscale, bind, Except.bind,
    pure, Except.pure, one_mul]
  rfl

/-- **A counting word stands for its number**, whatever the program has defined. -/
theorem unitQuantity_countingWord (units : Bindings (Quantity ℝ)) {text : String} {c : Rat}
    (h : Vocabulary.countingWord? (Text.trimText text) = some c) :
    unitQuantity units text = .ok (.plain (c : ℝ)) :=
  unitQuantity_foreign (ofText_countingWord h) fun _ ht => absurd ht List.not_mem_nil

end Session

end Ballpark
