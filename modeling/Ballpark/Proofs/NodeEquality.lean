import Ballpark.Program.Reading

/-!
# Equality of trees

Whether two trees of programs are equal can be computed: `Node.same` compares them node by node, and it is
right about that (`Node.same_iff`). So what a text is read as is found by evaluation
(`Node.statementsOfText_of_toOption`).
-/

namespace Ballpark.Node

mutual

/-- Are two trees the same? -/
def same : Node → Node → Bool
  | .number x u, .number y v => x == y && u == v
  | .sigFig x u, .sigFig y v => x == y && u == v
  | .identifier x, .identifier y | .unit x, .unit y | .foreign x, .foreign y => x == y
  | .percentTwiddle x, .percentTwiddle y | .decibelTwiddle x, .decibelTwiddle y => x == y
  | .binary op a b, .binary op' c d => op == op' && a.same c && b.same d
  | .unary op a, .unary op' b => op == op' && a.same b
  | .range a b u, .range c d v
  | .uniformRange a b u, .uniformRange c d v
  | .normalRange a b u, .normalRange c d v => a.same c && b.same d && u == v
  | .betaOf a b, .betaOf c d
  | .betaAgainst a b, .betaAgainst c d => a.same c && b.same d
  | .weightedSet xs ws u, .weightedSet ys vs v => sameAll xs ys && sameAll ws vs && u == v
  | .conversion a x, .conversion b y => a.same b && x == y
  | .call x as, .call y bs => x == y && sameAll as bs
  | .letBinding x a b, .letBinding y c d => x == y && a.same c && b.same d
  | .ifExpression a b c, .ifExpression d e f => a.same d && b.same e && c.same f
  | .assignment x a, .assignment y b => x == y && a.same b
  | .unitDefinition x k a, .unitDefinition y l b => x == y && k == l && a.same b
  | .functionDefinition x ps a, .functionDefinition y qs b => x == y && ps == qs && a.same b
  | .program as, .program bs => sameAll as bs
  | _, _ => false

/-- Are the trees of two lists the same, one by one? -/
def sameAll : List Node → List Node → Bool
  | [], [] => true
  | a :: as, b :: bs => a.same b && sameAll as bs
  | _, _ => false

end

theorem eq_of_same (m n : Node) : m.same n = true → m = n := by
  -- induction on the comparison, which is false where the kinds differ
  apply same.induct (fun m n => m.same n = true → m = n) fun ms ns => sameAll ms ns = true → ms = ns
  all_goals
    intros
    simp_all only [same, sameAll, Bool.and_eq_true, beq_iff_eq, Bool.false_eq_true, forall_const]

theorem same_self (m : Node) : m.same m = true := by
  apply @Node.rec (fun m => m.same m = true) fun ms => sameAll ms ms = true
  all_goals
    intros
    simp only [same, sameAll, beq_self_eq_true, Bool.and_self, *]

/-- Trees are found to be the same if they are. -/
theorem same_iff {m n : Node} : m.same n = true ↔ m = n :=
  ⟨eq_of_same m n, fun h => h ▸ same_self m⟩

instance : DecidableEq Node :=
  fun _ _ => decidable_of_iff _ same_iff

/-- What a text is read as. -/
theorem statementsOfText_of_toOption {text : String} {statements : List Node}
    (h : (statementsOfText text).toOption = some statements) : statementsOfText text = .ok statements := by
  rcases hread : statementsOfText text with fault | found
  all_goals rw [hread] at h
  · cases h
  · exact congrArg Except.ok (Option.some.inj h)

end Ballpark.Node
