import Ballpark.Proofs.UnitShape

/-!
# Every unit is canonical

A power throws away the scale that comes with canonical form, so it is right only for units that set none
free. That rests on an invariant which each operation has to restore: reading, products, quotients,
powers and the way to base units all end in a canonical unit (`CompoundUnit.operations_canonical`), over
any numbers. For all but powers that is the shape of canonical form; a power also has to be one that no
number can spoil, and there the factors stay apart, so the scale is the one that the merge began with.

The way to base units names labels by their dimensions, with one tick in front, so two labels of a
dimension must not differ by ticks alone. Reading gives no label that begins with a tick, and nothing
makes one out of those that were there; this is carried along beside canonical form.
-/

namespace Ballpark.CompoundUnit

variable {R : Type} [Scalar R]

/-! ## Powers -/

/-- What a power of a canonical unit is: canonical, made of the units that were there, and with the
scale one, so that nothing is lost. -/
structure IsPower (u : CompoundUnit R) (exponent : Rat) (w : CompoundUnit R) : Prop where
  canonical : w.Canonical
  tickFree : TickFree u.terms → TickFree w.terms
  scaleless : canonicalize (u.terms.map fun t => { t with power := t.power * exponent }) =
    .ok (w, Scalar.ofNat 1)

/-- A canonical unit has a power for every fraction. -/
theorem Canonical.exists_isPower {u : CompoundUnit R} (h : u.Canonical) (exponent : Rat) :
    ∃ w, u.IsPower exponent w := by
  obtain ⟨w, hw⟩ := canonicalize_scaled h exponent
  have harranges := (canonicalize_shape _).of_ok hw
  exact ⟨w, harranges.canonical, fun htick => harranges.tickFree (htick.mapPower (· * exponent)), hw⟩

/-- The unit of plain numbers is its own power, whatever the exponent. -/
theorem isPower_nil {u : CompoundUnit R} (h : u.terms = []) (exponent : Rat) : u.IsPower exponent u := by
  obtain ⟨ts⟩ := u
  obtain rfl : ts = [] := h
  exact ⟨canonical_one, id, rfl⟩

/-- **A finite power is the canonical one**: raising a canonical unit to a finite number never fails. -/
theorem Canonical.pow_isPower {u : CompoundUnit R} (h : u.Canonical) {k : R} {exponent : Rat}
    (hfinite : Scalar.isFinite k = true) (hexponent : Exponent.ofScalar k = .ok exponent) :
    ∃ w, u.pow k = .ok w ∧ u.IsPower exponent w := by
  by_cases hnil : u.terms = []
  · exact ⟨u, by simp [pow, hnil, pure, Except.pure], isPower_nil hnil exponent⟩
  · obtain ⟨w, hw⟩ := h.exists_isPower exponent
    have hsome : u.terms.isEmpty = false := by simp [hnil]
    refine ⟨w, ?_, hw⟩
    simp only [pow, hsome, hfinite, hexponent, hw.scaleless, bind, Except.bind, pure, Except.pure]
    rfl

/-- A number with an exact value is used as an exponent. -/
theorem exists_exponent {k : R} {negative : Bool} {magnitude : Rat}
    (hexact : Scalar.exact k = .finite negative magnitude) :
    ∃ exponent, Exponent.ofScalar k = .ok exponent := by
  rw [Exponent.ofScalar, hexact]
  exact ⟨_, rfl⟩

/-! ## The other operations -/

/-- What is read fails as readers do, and is canonical else. -/
theorem ofText_ends_shaped (text : String) :
    Ends (ofText text : Except (Fault R) (CompoundUnit R × R)) (·.1.Shaped) ReadingFault :=
  ((ofText_ends text).strengthen fun _ hread => ofText_shaped hread).mono (fun _ h => h) fun _ => id

/-- The way to base units fails in the arithmetic of sizes only. -/
theorem toBase_ends_shaped {u : CompoundUnit R} (h : TickFree u.terms) :
    Ends u.toBase (·.1.Shaped) Checked.ArithmeticOnly :=
  u.factor_ends.bind fun _ _ => .ok (shaped_ofDimension u.normal_dimension h.dimension)

/-- **Every unit is canonical, and powers lose no scale.** What any text is read as is canonical, and so
are the products, the quotients, the finite powers and the base units of a canonical unit; products,
quotients and base units may fail in their arithmetic, powers do not. The canonical form of a canonical
unit is the unit itself with the scale one, and one is the scale of every power. No name stands for a
unit with a label that begins with a tick: there is none in what is read, no operation makes one, and the
way to base units, which puts a tick in front of labels, relies on that. -/
theorem operations_canonical {u : CompoundUnit R} (hu : u.Canonical) (v : CompoundUnit R) :
    (∀ text, Ends (ofText text : Except (Fault R) (CompoundUnit R × R))
      (fun r => r.1.Canonical ∧ TickFree r.1.terms) ReadingFault) ∧
    Ends (u.multiply v)
      (fun r => r.1.Canonical ∧ (TickFree u.terms → TickFree v.terms → TickFree r.1.terms))
      Checked.ArithmeticOnly ∧
    Ends (u.divide v)
      (fun r => r.1.Canonical ∧ (TickFree u.terms → TickFree v.terms → TickFree r.1.terms))
      Checked.ArithmeticOnly ∧
    (TickFree u.terms →
      Ends u.toBase (fun r => r.1.Canonical ∧ TickFree r.1.terms) Checked.ArithmeticOnly) ∧
    (∀ (k : R) (negative : Bool) (magnitude : Rat), Scalar.isFinite k = true →
      Scalar.exact k = .finite negative magnitude →
      ∃ w exponent, u.pow k = .ok w ∧ Exponent.ofScalar k = .ok exponent ∧ u.IsPower exponent w) ∧
    (∀ exponent : Rat, ∃ w, u.IsPower exponent w) ∧
    canonicalize u.terms = .ok (u, Scalar.ofNat 1) := by
  refine ⟨fun text => ?_, ?_, ?_, fun htick => ?_, fun k negative magnitude hfinite hexact => ?_,
    hu.exists_isPower, canonicalize_canonical hu⟩
  · exact (ofText_ends_shaped text).mono (fun _ h => ⟨h.canonical, h.tickFree⟩) fun _ => id
  · exact (canonicalize_shape _).mono
      (fun _ h => ⟨h.canonical, fun htu htv => h.tickFree (htu.append htv)⟩) fun _ => id
  · exact (canonicalize_shape _).mono
      (fun _ h => ⟨h.canonical, fun htu htv => h.tickFree (htu.append (htv.mapPower (-·)))⟩) fun _ => id
  · exact (toBase_ends_shaped htick).mono (fun _ h => ⟨h.canonical, h.tickFree⟩) fun _ => id
  · -- a power goes through its exact exponent, so it is asked of the exponent only
    obtain ⟨exponent, hexponent⟩ := exists_exponent hexact
    obtain ⟨w, hw, hpower⟩ := hu.pow_isPower hfinite hexponent
    exact ⟨w, exponent, hw, hexponent, hpower⟩

/-- Kilometres per widget: a label beside a base quantity. -/
noncomputable def kilometresPerWidget : CompoundUnit ℝ :=
  let length := Dimension.ofPowers fun | .length => 1 | _ => 0
  let kilometre : NamedUnit ℝ := ⟨"kilometer", length, Scalar.ofNat 1000, "meter", false⟩
  let widget : NamedUnit ℝ := ⟨"widget", Dimension.label "widget", Scalar.ofNat 1, "'widget", false⟩
  ⟨[⟨"km", kilometre, 1⟩, ⟨"'widget", widget, -1⟩]⟩

theorem canonical_kilometresPerWidget : kilometresPerWidget.Canonical where
  nonzero := by simp [kilometresPerWidget]
  dimensional := by
    simp only [kilometresPerWidget, List.forall_mem_cons]
    exact ⟨by decide +kernel, by decide +kernel, by simp⟩
  distinct := by simp [kilometresPerWidget]
  positiveFirst := by simp [kilometresPerWidget]
  plain h := absurd h (by decide +kernel)

/-- The square root of kilometres per widget keeps its kilometres. -/
theorem kilometresPerWidget_root :
    kilometresPerWidget.Canonical ∧ ∃ w, kilometresPerWidget.pow ((1 / 2 : Rat) : ℝ) = .ok w ∧
      kilometresPerWidget.IsPower (1 / 2) w := by
  obtain ⟨-, -, -, -, hpow, -, -⟩ := operations_canonical canonical_kilometresPerWidget .one
  obtain ⟨w, exponent, hw, hexponent, hpower⟩ :=
    hpow ((1 / 2 : Rat) : ℝ) _ _ (Scalar.isFinite_real _) (Scalar.exact_real _)
  have hhalf : exponent = 1 / 2 := by
    have hsnap : Exponent.snap (1 / 2) = 1 / 2 := by decide +kernel
    rw [Exponent.ofScalar_ratCast, hsnap] at hexponent
    exact (Except.ok.inj hexponent).symm
  exact ⟨canonical_kilometresPerWidget, w, hw, hhalf ▸ hpower⟩

end Ballpark.CompoundUnit
