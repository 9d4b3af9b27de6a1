import Ballpark.Proofs.BaseUnit
import Ballpark.Proofs.Interval
import Ballpark.Proofs.SessionInvariant
import Ballpark.Proofs.SessionUnit

/-!
# Sound sessions

The canonical units of factors that are known by name are a class that arithmetic and reading do not
leave (`UnitClass.canonical`). A session starts with settings that have been checked and stores nothing;
evaluation, and values that are set from outside in such units, lead to the sessions that come about
(`Session.Reachable`). So all that a session stores is in canonical units, and its intervals hold a share
of the probability that can be held (`Session.Reachable.sound`).
-/

namespace Ballpark

namespace MathFunction

theorem normal_angle : angle.Normal :=
  LabelPowers.normal_nil

theorem tickFree_angle : angle.TickFree :=
  fun _ h => absurd rfl h

end MathFunction

/-- Any power of a known unit that is canonical is known and canonical. -/
theorem CompoundUnit.pow_canonical {u w : CompoundUnit ℝ} {k : ℝ} (hknown : u.Known)
    (hcanonical : u.Canonical) (h : u.pow k = .ok w) : w.Known ∧ w.Canonical := by
  rw [pow] at h
  split at h
  · cases h
    exact ⟨hknown, hcanonical⟩
  rw [Scalar.isFinite_real] at h
  rcases hexponent : (Exponent.ofScalar k : Except (Fault ℝ) Rat) with e | exponent
  · rw [hexponent] at h
    cases h
  · have hpowers := Known.mapPower hknown (· * exponent)
    obtain ⟨w', scale, hw', hspec⟩ := canonicalize_spec hpowers
    rw [hexponent] at h
    simp only [bind, Except.bind, hw'] at h
    cases h
    exact ⟨hspec.known hpowers, hspec.canonical⟩

/-- Canonical units of known factors. -/
def UnitClass.canonical : UnitClass ℝ where
  Mem u := u.Known ∧ u.Canonical
  one := ⟨CompoundUnit.known_one, CompoundUnit.canonical_one⟩
  radian := by
    have h := CompoundUnit.ofDimension_spec MathFunction.normal_angle MathFunction.tickFree_angle
    exact ⟨h.known, h.canonical⟩
  multiply hu hv h := by
    obtain ⟨w, scale, hw, hmakes⟩ := CompoundUnit.multiply_spec hu.1 hv.1
    cases hw.symm.trans h
    exact ⟨hmakes.known, hmakes.canonical⟩
  divide hu hv h := by
    obtain ⟨w, scale, hw, hmakes⟩ := CompoundUnit.divide_spec hu.1 hv.1
    cases hw.symm.trans h
    exact ⟨hmakes.known, hmakes.canonical⟩
  pow hu h := CompoundUnit.pow_canonical hu.1 hu.2 h
  toBase hu h := by
    obtain ⟨w, hw, hmakes⟩ := CompoundUnit.toBase_spec hu.1
    cases hw.symm.trans h
    exact ⟨hmakes.known, hmakes.canonical⟩
  ofText h := CompoundUnit.ofText_sound h
  -- a label that has been defined stands for a unit in the same class
  unitQuantity hunits h := by
    have hdefined : Session.UnitsSound _ := fun name q hq =>
      ⟨(hunits name q hq).1, (hunits name q hq).2⟩
    have hsound := Session.unitQuantity_sound hdefined h
    exact ⟨hsound.known, hsound.canonical⟩

theorem UnitClass.val_canonical {q : Quantity ℝ} : UnitClass.canonical.Val q ↔ q.Sound :=
  ⟨fun h => ⟨h.1, h.2⟩, fun h => ⟨h.known, h.canonical⟩⟩

namespace Session

variable {S : Type} [RandomSource S ℝ]

/-- The sessions that come about. -/
inductive Reachable : Session ℝ S → Prop
  /-- settings are checked -/
  | start {request : SettingsRequest ℝ} {settings : Settings ℝ} (h : request.check = .ok settings)
    (source : S) : Reachable (.ofSource settings source)
  | evaluate {s : Session ℝ S} (h : Reachable s) (node : Node) : Reachable (next node s)
  | setVariable {s : Session ℝ S} (h : Reachable s) (name : String) {q : Quantity ℝ} (hq : q.Sound) :
    Reachable (s.setVariable name q)
  | pinVariable {s : Session ℝ S} (h : Reachable s) (name : String) {q : Quantity ℝ} (hq : q.Sound) :
    Reachable (s.pinVariable name q)
  | clearVariables {s : Session ℝ S} (h : Reachable s) : Reachable s.clearVariables
  | reset {s : Session ℝ S} (h : Reachable s) : Reachable s.reset

theorem isMass_of_check {request : SettingsRequest ℝ} {settings : Settings ℝ}
    (h : request.check = .ok settings) : Sampler.IsMass settings.confidence := by
  have hends : Ends request.check (fun settings => Sampler.IsMass settings.confidence)
      fun _ => True := by
    refine Ends.bind (P := fun _ => True) ?_ fun count _ => ?_
    · rcases SampleCount.ofWritten request.sampleCount with e | count
      · exact .error True.intro
      · exact .ok True.intro
    rcases request.confidence with _ | c
    · exact .error True.intro
    dsimp only
    split
    · rename_i hmass
      rw [Bool.and_eq_true] at hmass
      exact .ok ⟨by simpa using hmass.1, by simpa using hmass.2⟩
    · exact .error True.intro
  exact hends.of_ok h

omit [RandomSource S ℝ] in
theorem stores_ofSource (settings : Settings ℝ) (source : S) :
    (ofSource settings source).Stores .canonical settings :=
  ⟨rfl, .empty, .empty, .empty, .empty⟩

/-- **Sessions are sound**: induction on the way that has led to them. -/
theorem Reachable.sound {s : Session ℝ S} (h : Reachable s) :
    Sampler.IsMass s.settings.confidence ∧ s.Stores .canonical s.settings := by
  induction h with
  | start h source => exact ⟨isMass_of_check h, stores_ofSource _ source⟩
  | @evaluate s _ node ih =>
    have hkept := (UnitClass.contract_holds.evaluateTree_keeps node s ih.2).2
    have hsettings : (next node s).settings = s.settings := hkept.settings
    rw [hsettings]
    exact ⟨ih.1, hkept⟩
  | setVariable _ name hq ih =>
    have hs := ih.2
    have hvalues := hs.values.set name (UnitClass.val_canonical.mpr hq)
    exact ⟨ih.1, rfl, hvalues, hs.pins, hs.units, hs.constants⟩
  | pinVariable _ name hq ih =>
    have hs := ih.2
    have hval := UnitClass.val_canonical.mpr hq
    exact ⟨ih.1, rfl, hs.values.set name hval, hs.pins.set name hval, hs.units, hs.constants⟩
  | clearVariables _ ih =>
    have hs := ih.2
    exact ⟨ih.1, rfl, .empty, hs.pins, hs.units, hs.constants⟩
  | reset _ ih => exact ⟨ih.1, stores_ofSource _ _⟩

/-- The definitions of a session's units are sound. -/
theorem Reachable.unitsSound {s : Session ℝ S} (h : Reachable s) : UnitsSound s.units :=
  fun name q hq => UnitClass.val_canonical.mp (h.sound.2.units name q hq)

end Session

end Ballpark
