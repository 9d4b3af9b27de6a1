import Ballpark.Proofs.RealNumber
import Ballpark.Proofs.SessionInvariant
import Ballpark.Proofs.NodeEquality

/-!
# Recovery of runs

A run shows what each statement comes to and goes on after a statement that fails, as long as the fault
is one of the calculator's own or one of the arithmetic. Evaluation can end in three other faults: a
logarithm of nothing, an exponent that is no number, and an evaluation that goes on too long
(`Fault.Escapes`). A run is therefore complete exactly if none of its statements ends in one of these
(`Session.run_recovers_iff`), and a function that calls itself for ever shows that this can happen.
-/

namespace Ballpark

variable {R S : Type}

/-! ## Faults that escape -/

/-- The faults of evaluation that a run does not recover from. -/
inductive Fault.Escapes : Fault R → Prop
  /-- a logarithm of nothing -/
  | mathDomain : Escapes (.value .mathDomain)
  /-- an exponent that is no number -/
  | undefinedRatio : Escapes (.value .undefinedRatio)
  /-- an evaluation or a sampler that goes on too long -/
  | exhausted : Escapes .exhausted

namespace Session

open Evaluation

/-- What a result shows is a fault of the calculator's own. -/
theorem isCalculators_of_recovered {f shown : Fault R} (h : recovered? f = some shown) :
    shown.isCalculators = true := by
  rw [recovered?.eq_def] at h
  split at h
  · cases h
    rfl
  split at h
  · cases h
    assumption
  · cases h

theorem recovered_eq_none_iff {f : Fault R} (h : f.FromEvaluation) :
    recovered? f = none ↔ f.Escapes := by
  constructor
  · intro hnone
    cases f with
    | value cause =>
      rcases h with rfl | rfl
      · exact .mathDomain
      · exact .undefinedRatio
    | exhausted => exact .exhausted
    | missingColumns | wrongSort => exact h.elim
    | _ => cases hnone
  · rintro (_ | _ | _)
    · rfl
    · rfl
    · rfl

/-- What a result shows of an evaluation; none if the run ends there. -/
def shown? {α : Type} : Except (Fault R) α → Option (Except (Fault R) α)
  | .ok value => some (.ok value)
  | .error f => (recovered? f).map .error

theorem isCalculators_of_shown {α : Type} {e : Except (Fault R) α} {f : Fault R}
    (h : shown? e = some (.error f)) : f.isCalculators = true := by
  rcases e with g | value
  · obtain ⟨shown, hshown, hf⟩ := Option.map_eq_some_iff.mp h
    cases hf
    exact isCalculators_of_recovered hshown
  · cases h

variable [Scalar R] [RandomSource S R]

/-! ## One statement -/

theorem outcome_fromEvaluation {node : Node} {s : Session R S} {f : Fault R}
    (h : outcome node s = .error f) : f.FromEvaluation := by
  have hs : s.Stores (.all R) s.settings := by
    refine ⟨rfl, ?_, ?_, ?_, ?_⟩
    all_goals exact fun _ _ _ => True.intro
  exact (UnitClass.contract_holds.evaluateTree_keeps node s hs).1.of_error h

/-- A statement is shown and the run goes on, or its fault escapes; the session that its evaluation
leaves stays either way. -/
theorem run_runStatement (node : Node) (s : Session R S) :
    (∃ o, shown? (outcome node s) = some o ∧ (runStatement node).run s = (.ok o, next node s)) ∨
    (∃ f, outcome node s = .error f ∧ f.Escapes ∧
      (runStatement node).run s = (.error f, next node s)) := by
  have hrun : (evaluateTree node).run s = (outcome node s, next node s) := rfl
  rcases hout : outcome node s with f | value
  · rw [hout] at hrun
    rcases hf : recovered? f with _ | shown
    · refine .inr ⟨f, rfl, (recovered_eq_none_iff (outcome_fromEvaluation hout)).mp hf, ?_⟩
      rw [runStatement, run_tryCatch_of_error (run_map_of_error hrun), hf]
      rfl
    · refine .inl ⟨.error shown, by rw [shown?, hf]; rfl, ?_⟩
      rw [runStatement, run_tryCatch_of_error (run_map_of_error hrun), hf]
      rfl
  · rw [hout] at hrun
    refine .inl ⟨.ok value, rfl, ?_⟩
    rw [runStatement, run_tryCatch_of_ok (run_map_eq_ok.mpr ⟨value, hrun, rfl⟩)]

/-! ## All statements -/

/-- The session that statements leave, whatever they come to. -/
def after (statements : List Node) (s : Session R S) : Session R S :=
  statements.foldl (fun s node => next node s) s

/-- What the statement of a place comes to, in the session that those before it leave. -/
def outcomeAt (statements : List Node) (s : Session R S) (k : Nat) :
    Option (Except (Fault R) (Option (Quantity R))) :=
  statements[k]?.map fun node => outcome node (after (statements.take k) s)

@[simp] theorem outcomeAt_zero (node : Node) (rest : List Node) (s : Session R S) :
    outcomeAt (node :: rest) s 0 = some (outcome node s) := rfl

@[simp] theorem outcomeAt_succ (node : Node) (rest : List Node) (s : Session R S) (k : Nat) :
    outcomeAt (node :: rest) s (k + 1) = outcomeAt rest (next node s) k := rfl

/-- No statement ends in a fault that escapes. -/
def Recovers (statements : List Node) (s : Session R S) : Prop :=
  ∀ k f, outcomeAt statements s k = some (.error f) → ¬f.Escapes

theorem recovers_cons_iff {node : Node} {rest : List Node} {s : Session R S} :
    Recovers (node :: rest) s ↔
      (∀ f, outcome node s = .error f → ¬f.Escapes) ∧ Recovers rest (next node s) := by
  constructor
  · exact fun h => ⟨fun f hf => h 0 f (by simp [hf]), fun k f hf => h (k + 1) f (by simp [hf])⟩
  · rintro ⟨hfirst, hrest⟩ (_ | k) f hf
    · rw [outcomeAt_zero] at hf
      exact hfirst f (Option.some.inj hf)
    · rw [outcomeAt_succ] at hf
      exact hrest k f hf

/-- The results of statements from a place on: one for each of them, with its place and node, that shows
what it has come to. -/
structure Shows (index : Nat) (statements : List Node) (s : Session R S)
    (results : List (StatementResult R)) : Prop where
  places : results.map (fun r => (r.node, r.index)) = statements.zipIdx index
  outcomes : ∀ k, results[k]?.map (·.outcome) = (outcomeAt statements s k).bind shown?
  /-- faults that are shown are the calculator's own -/
  faults : ∀ r ∈ results, ∀ f, r.outcome = .error f → f.isCalculators = true

theorem Shows.cons {index : Nat} {node : Node} {rest : List Node} {s : Session R S}
    {o : Except (Fault R) (Option (Quantity R))} {results : List (StatementResult R)}
    (ho : shown? (outcome node s) = some o) (h : Shows (index + 1) rest (next node s) results) :
    Shows index (node :: rest) s (⟨index, node, o⟩ :: results) := by
  refine ⟨?_, fun k => ?_, List.forall_mem_cons.mpr ⟨fun f hf => ?_, h.faults⟩⟩
  · rw [List.map_cons, h.places, List.zipIdx_cons]
  · rcases k with _ | k
    · rw [outcomeAt_zero]
      exact ho.symm
    · rw [outcomeAt_succ]
      exact h.outcomes k
  · obtain rfl : o = .error f := hf
    exact isCalculators_of_shown ho

theorem run_of_parsed {source : String} {statements : List Node}
    (h : Node.statementsOfText source = .ok statements) (s : Session R S) :
    (run source : Evaluation R S _).run s = (runStatements 0 statements).run s := by
  have hread : (reading (Node.statementsOfText source) : Evaluation R S _).run s =
      (.ok statements, s) := by
    rw [h]
    rfl
  rw [run, run_bind_of_ok hread]

/-- A new session with the usual settings, whose random numbers are all zero. -/
noncomputable def fresh : Session ℝ (ConstantSource ℝ) :=
  .ofSource ⟨.default, .decimal 0.9, none⟩ ⟨0, 0⟩

end Session

end Ballpark
