import Ballpark.Unit.Reading
import Ballpark.Proofs.Outcome

/-!
# Unit expressions and their values

The readers of units compute while they read. What they compute is the value of the expression that the
tokens write: an expression is a tree of names and numbers under products, quotients and powers, where
names need not be known, numbers may be zero and exponents may be fractions, and its value is a product
of factors with a number, or the first fault of an operation that has no result.

Reading tokens that write an expression is evaluating it, faults included
(`UnitReader.all_eq_evaluate`). The readers go through the levels of the grammar, and each of them is one
step of a descent: an atom and a power are read off as they are, a product and a quotient leave the reader
at the loop that would take more of them in (`UnitReader.GivesLevel`).
-/

namespace Ballpark

/-! ## Syntax -/

/-- The rules of the grammar. -/
inductive UnitTree.Level where
  | quotient | product | power | atom

/-- What an atom begins with. -/
def UnitTree.Opens (tokens : List UnitToken) : Prop :=
  ∃ token rest, tokens = token :: rest ∧ ∀ mark, token = .mark mark → mark = "("

theorem UnitTree.Opens.append {tokens : List UnitToken} (h : Opens tokens) (more : List UnitToken) :
    Opens (tokens ++ more) := by
  obtain ⟨token, rest, rfl, hmark⟩ := h
  exact ⟨token, rest ++ more, rfl, hmark⟩

theorem UnitTree.Opens.length_pos {tokens : List UnitToken} (h : Opens tokens) : 0 < tokens.length := by
  obtain ⟨token, rest, rfl, -⟩ := h
  exact Nat.succ_pos _

/-- An exponent as it is written. -/
inductive ExponentExpression where
  | number (text : String)
  | negative (text : String)
  | ratio (above below : ExponentExpression)

namespace ExponentExpression

/-- Where an exponent stands: by itself, or in parentheses, where it may be a ratio. -/
inductive Place where
  | alone | enclosed

/-- Tokens that write an exponent. -/
inductive Writes : Place → ExponentExpression → List UnitToken → Prop
  | number {text : String} : Writes .alone (.number text) [.number text]
  | negative {text : String} : Writes .alone (.negative text) [.mark "-", .number text]
  | enclosed {e : ExponentExpression} {tokens : List UnitToken} {closing : UnitToken}
      (h : Writes .enclosed e tokens) (hclosing : closing.text = ")") :
      Writes .alone e (.mark "(" :: (tokens ++ [closing]))
  | alone {e : ExponentExpression} {tokens : List UnitToken} (h : Writes .alone e tokens) :
      Writes .enclosed e tokens
  | ratio {e d : ExponentExpression} {above below : List UnitToken} (he : Writes .alone e above)
      (hd : Writes .alone d below) : Writes .enclosed (.ratio e d) (above ++ .mark "/" :: below)

end ExponentExpression

/-- A unit as it is written. -/
inductive UnitExpression where
  | name (text : String)
  | number (text : String)
  | product (left right : UnitExpression)
  | quotient (above below : UnitExpression)
  | power (base : UnitExpression) (exponent : ExponentExpression)

namespace UnitExpression

open UnitTree (Level Opens)

/-- **The grammar**: tokens that write a unit expression under a rule. -/
inductive Writes : Level → UnitExpression → List UnitToken → Prop
  | name {text : String} : Writes .atom (.name text) [.name text]
  | number {text : String} : Writes .atom (.number text) [.number text]
  | enclosed {s : UnitExpression} {tokens : List UnitToken} (h : Writes .quotient s tokens) :
      Writes .atom s (.mark "(" :: (tokens ++ [.mark ")"]))
  | atom {s : UnitExpression} {tokens : List UnitToken} (h : Writes .atom s tokens) :
      Writes .power s tokens
  | raised {s : UnitExpression} {e : ExponentExpression} {tokens exponent : List UnitToken}
      {mark : String} (h : Writes .atom s tokens) (hmark : mark ∈ ["^", "**"])
      (hexponent : e.Writes .alone exponent) : Writes .power (.power s e) (tokens ++ .mark mark :: exponent)
  | power {s : UnitExpression} {tokens : List UnitToken} (h : Writes .power s tokens) :
      Writes .product s tokens
  | times {s t : UnitExpression} {left right : List UnitToken} {mark : String}
      (hs : Writes .product s left) (hmark : mark ∈ ["*", "·"]) (ht : Writes .power t right) :
      Writes .product (.product s t) (left ++ .mark mark :: right)
  | beside {s t : UnitExpression} {left right : List UnitToken} (hs : Writes .product s left)
      (ht : Writes .power t right) : Writes .product (.product s t) (left ++ right)
  | product {s : UnitExpression} {tokens : List UnitToken} (h : Writes .product s tokens) :
      Writes .quotient s tokens
  | divided {s t : UnitExpression} {above below : List UnitToken} (hs : Writes .quotient s above)
      (ht : Writes .product t below) :
      Writes .quotient (.quotient s t) (above ++ .mark "/" :: below)

/-- Every expression begins with an atom. -/
theorem Writes.opens {level : Level} {s : UnitExpression} {tokens : List UnitToken}
    (h : s.Writes level tokens) : Opens tokens := by
  induction h with
  | name | number => exact ⟨_, _, rfl, fun _ heq => nomatch heq⟩
  | enclosed => exact ⟨_, _, rfl, fun _ heq => (UnitToken.mark.inj heq).symm⟩
  | atom _ ih | power _ ih | product _ ih => exact ih
  | raised _ _ _ ih => exact ih.append _
  | times _ _ _ ih | beside _ _ ih | divided _ _ ih => exact ih.append _

end UnitExpression

/-! ## Values -/

variable {R : Type} [Scalar R]

/-- The value of an exponent. -/
def ExponentExpression.evaluate : ExponentExpression → Except (Fault R) Rat
  | number text => Exponent.ofScalar (Scalar.ofDecimal (Decimal.ofText text) : R)
  | negative text => do return -(← Exponent.ofScalar (Scalar.ofDecimal (Decimal.ofText text) : R))
  | ratio above below => do
    let k ← above.evaluate
    let d ← below.evaluate
    if d = 0 then throw (.arithmetic (.fractionOverZero (UnitReader.signOf k))) else return k / d

/-- The value of a unit expression: its operands from left to right, and then the operation. -/
def UnitExpression.evaluate : UnitExpression → Except (Fault R) (ScaledTerms R)
  | name text => UnitReader.named text
  | number text => .ok ⟨[], Scalar.ofDecimal (Decimal.ofText text)⟩
  | product left right => do
    let a ← left.evaluate
    return a.multiply (← right.evaluate)
  | quotient above below => do
    let a ← above.evaluate
    a.divide (← below.evaluate)
  | power base exponent => do
    let a ← base.evaluate
    a.pow (← exponent.evaluate)

theorem ExponentExpression.evaluate_negative {text : String} {k : Rat}
    (h : (number text).evaluate (R := R) = .ok k) : (negative text).evaluate (R := R) = .ok (-k) := by
  rw [evaluate] at h
  rw [evaluate, h]
  rfl

theorem ExponentExpression.evaluate_ratio {e d : ExponentExpression} {j k : Rat}
    (he : e.evaluate (R := R) = .ok j) (hd : d.evaluate (R := R) = .ok k) :
    (ratio e d).evaluate (R := R) =
      if k = 0 then .error (.arithmetic (.fractionOverZero (UnitReader.signOf j))) else .ok (j / k) := by
  rw [evaluate, he, hd]
  rfl

namespace UnitExpression

variable {s t : UnitExpression} {a b : ScaledTerms R}

theorem evaluate_product (hs : s.evaluate = .ok a) (ht : t.evaluate = .ok b) :
    (product s t).evaluate = .ok (a.multiply b) := by
  rw [evaluate, hs, ht]
  rfl

theorem evaluate_quotient (hs : s.evaluate = .ok a) (ht : t.evaluate = .ok b) :
    (quotient s t).evaluate = a.divide b := by
  rw [evaluate, hs, ht]
  rfl

theorem evaluate_power {e : ExponentExpression} {k : Rat} (hs : s.evaluate = .ok a)
    (he : e.evaluate (R := R) = .ok k) : (power s e).evaluate = a.pow k := by
  rw [evaluate, hs, he]
  rfl

end UnitExpression

namespace UnitReader

open Reader
open UnitTree (Level Opens)

variable {unit : String} {α β : Type}

/-! ## Steps of readers -/

/-- Is one of the marks the next token? -/
def startsWith (marks : List String) : List UnitToken → Bool
  | .mark m :: _ => marks.contains m
  | _ => false

omit [Scalar R] in
theorem at?_run (marks : List String) (tokens : List UnitToken) :
    (at? marks : UnitReader R Bool).run tokens = .ok (startsWith marks tokens, tokens) := by
  rcases tokens with _ | ⟨_ | _ | _, _⟩ <;> rfl

omit [Scalar R] in
theorem take_run (token : UnitToken) (tokens : List UnitToken) :
    (take unit : UnitReader R UnitToken).run (token :: tokens) = .ok (token, tokens) :=
  rfl

omit [Scalar R] in
theorem expect_run {token : UnitToken} {text : String} (h : token.text = text)
    (tokens : List UnitToken) :
    (expect unit text : UnitReader R PUnit).run (token :: tokens) = .ok (⟨⟩, tokens) := by
  rw [expect, run_bind_of_ok (take_run _ _), if_pos (beq_iff_eq.mpr h)]
  rfl

/-- Nothing behind a power raises it. -/
abbrev EndsPower (rest : List UnitToken) : Prop :=
  startsWith ["^", "**"] rest = false

/-- Nothing behind a product goes on with it. -/
inductive EndsProduct : List UnitToken → Prop
  | nil : EndsProduct []
  | slash (rest : List UnitToken) : EndsProduct (.mark "/" :: rest)
  | close (rest : List UnitToken) : EndsProduct (.mark ")" :: rest)

theorem EndsProduct.endsPower {rest : List UnitToken} (h : EndsProduct rest) : EndsPower rest := by
  cases h <;> rfl

theorem endsPower_of_opens {tokens : List UnitToken} (h : Opens tokens) (rest : List UnitToken) :
    EndsPower (tokens ++ rest) := by
  obtain ⟨token, more, rfl, hmark⟩ := h
  cases token with
  | number | name => rfl
  | mark m =>
    rw [hmark m rfl]
    rfl

/-- What closes a parenthesis is none of the other marks. -/
theorem startsWith_closing {closing : UnitToken} (h : closing.text = ")") {marks : List String}
    (hmarks : ")" ∉ marks) (rest : List UnitToken) : startsWith marks (closing :: rest) = false := by
  cases closing with
  | number | name => rfl
  | mark m =>
    obtain rfl : m = ")" := h
    simpa [startsWith] using hmarks

/-! ## Expressions are evaluated -/

/-- A reader gives what a computation gives, and leaves the tokens `rest`. -/
def Gives (m : UnitReader R α) (tokens : List UnitToken) (x : Except (Fault R) α)
    (rest : List UnitToken) : Prop :=
  m.run tokens = (·, rest) <$> x

namespace Gives

variable {m : UnitReader R α} {f : α → UnitReader R β} {x : Except (Fault R) α}
  {y : α → Except (Fault R) β} {tokens middle rest : List UnitToken}

omit [Scalar R] in
theorem of_ok {a : α} (h : m.run tokens = .ok (a, rest)) : Gives m tokens (.ok a) rest :=
  h

omit [Scalar R] in
theorem lift (x : Except (Fault R) α) (tokens : List UnitToken) :
    Gives (liftM x : UnitReader R α) tokens x tokens := by
  cases x <;> rfl

omit [Scalar R] in
theorem run_bind (hm : Gives m tokens x middle) :
    (m >>= f).run tokens = x >>= fun a => (f a).run middle := by
  rw [StateT.run_bind, show m.run tokens = _ from hm]
  cases x <;> rfl

omit [Scalar R] in
theorem bind (hm : Gives m tokens x middle) (hf : ∀ a, Gives (f a) middle (y a) rest) :
    Gives (m >>= f) tokens (x >>= y) rest := by
  rw [Gives, hm.run_bind]
  cases x with
  | ok a => exact hf a
  | error => rfl

omit [Scalar R] in
/-- What comes behind only takes tokens. -/
theorem then_pure (hm : Gives m tokens x middle) {f : α → UnitReader R α}
    (hf : ∀ a, (f a).run middle = .ok (a, rest)) : Gives (m >>= f) tokens x rest := by
  have h := hm.bind fun a => of_ok (hf a)
  rwa [show (x >>= fun a => .ok a) = x from bind_pure x] at h

omit [Scalar R] in
/-- A step that is known to succeed. -/
theorem after {a : α} {z : Except (Fault R) β} (hm : m.run tokens = .ok (a, middle))
    (hf : Gives (f a) middle z rest) : Gives (m >>= f) tokens z rest := by
  rw [Gives, run_bind_of_ok hm]
  exact hf

end Gives

/-- What is read where an exponent is written. In parentheses it is read together with them. -/
def GivesExponent (R : Type) [Scalar R] (unit : String) (e : ExponentExpression)
    (tokens : List UnitToken) : ExponentExpression.Place → Prop
  | .alone => ∀ limit rest, (tokens ++ rest).length ≤ limit →
      Gives (exponent unit limit : UnitReader R Rat) (tokens ++ rest) e.evaluate rest
  | .enclosed => ∀ limit closing rest, closing.text = ")" → (tokens ++ closing :: rest).length ≤ limit →
      Gives (exponent unit (limit + 1) : UnitReader R Rat) (.mark "(" :: (tokens ++ closing :: rest))
        e.evaluate rest

theorem exponent_of_writes (unit : String) {place : ExponentExpression.Place} {e : ExponentExpression}
    {tokens : List UnitToken} (h : e.Writes place tokens) : GivesExponent R unit e tokens place := by
  induction h with
  | number =>
    intro limit rest hlimit
    obtain ⟨limit, rfl⟩ := Nat.exists_eq_succ_of_ne_zero (n := limit) (by rintro rfl; simp at hlimit)
    rw [exponent]
    refine .after (at?_run _ _) (.after (at?_run _ _) (.after (take_run _ _) ?_))
    exact (Gives.lift _ _).then_pure fun k => rfl
  | negative =>
    intro limit rest hlimit
    obtain ⟨limit, rfl⟩ := Nat.exists_eq_succ_of_ne_zero (n := limit) (by rintro rfl; simp at hlimit)
    rw [exponent]
    refine .after (at?_run _ _) (.after (at?_run _ _) (.after (take_run _ _) (.after (take_run _ _) ?_)))
    exact (Gives.lift _ _).bind fun k => .of_ok rfl
  | @enclosed e tokens closing _ hclosing ih =>
    intro limit rest hlimit
    obtain ⟨limit, rfl⟩ := Nat.exists_eq_succ_of_ne_zero (n := limit) (by rintro rfl; simp at hlimit)
    rw [List.cons_append, List.append_assoc, List.singleton_append]
    exact ih limit closing rest hclosing (by simp at hlimit ⊢; omega)
  -- between parentheses: one exponent, or the quotient of two
  | @alone e tokens _ ih =>
    intro limit closing rest hclosing hlimit
    rw [exponent]
    refine .after (at?_run _ _) (.after (take_run _ _) ?_)
    refine (ih limit (closing :: rest) hlimit).then_pure fun k => ?_
    rw [run_bind_of_ok (at?_run _ _), startsWith_closing hclosing (by decide)]
    exact (run_bind_of_ok rfl).trans (run_bind_of_ok (expect_run hclosing _))
  | @ratio e d above below _ _ ihabove ihbelow =>
    intro limit closing rest hclosing hlimit
    rw [List.append_assoc, List.cons_append] at hlimit ⊢
    have habove := ihabove limit (.mark "/" :: (below ++ closing :: rest)) hlimit
    have hbelow := ihbelow limit (closing :: rest) (by simp at hlimit ⊢; omega)
    rw [exponent]
    refine .after (at?_run _ _) (.after (take_run _ _) (habove.bind fun k => .after (at?_run _ _) ?_))
    refine .after (take_run _ _) (hbelow.bind fun d => ?_)
    -- the quotient by zero is a fault
    simp only
    split
    · rfl
    · exact .after rfl (.after (expect_run hclosing _) (.of_ok rfl))

/-- What is read where an expression is written: its value, and where a loop would take more tokens in,
its value on the way to the loop. Limits count five for each token, so that every parenthesis pays for the
descent behind it. -/
def GivesLevel (R : Type) [Scalar R] (unit : String) (s : UnitExpression) (tokens : List UnitToken) :
    Level → Prop
  | .atom => ∀ limit rest, 5 * (tokens ++ rest).length + 2 ≤ limit →
      Gives (atom unit limit : UnitReader R _) (tokens ++ rest) s.evaluate rest
  | .power => ∀ limit rest, 5 * (tokens ++ rest).length + 3 ≤ limit → EndsPower rest →
      Gives (power unit limit : UnitReader R _) (tokens ++ rest) s.evaluate rest
  | .product => ∀ limit rest, 5 * (tokens ++ rest).length + 4 ≤ limit → EndsPower rest →
      ∃ left, 5 * rest.length + 4 ≤ left ∧ (product unit limit : UnitReader R _).run (tokens ++ rest) =
        s.evaluate >>= fun a => (productRest unit left a).run rest
  | .quotient => ∀ limit rest, 5 * (tokens ++ rest).length + 5 ≤ limit → EndsProduct rest →
      ∃ left, 5 * rest.length + 5 ≤ left ∧ (quotient unit limit : UnitReader R _).run (tokens ++ rest) =
        s.evaluate >>= fun a => (quotientRest unit left a).run rest

theorem productRest_ends {limit : Nat} {a : ScaledTerms R} {rest : List UnitToken} (hlimit : limit ≠ 0)
    (h : EndsProduct rest) : (productRest unit limit a).run rest = .ok (a, rest) := by
  obtain ⟨limit, rfl⟩ := Nat.exists_eq_succ_of_ne_zero hlimit
  cases h <;> (rw [productRest]; rfl)

theorem quotientRest_ends {limit : Nat} {a : ScaledTerms R} {rest : List UnitToken} (hlimit : limit ≠ 0)
    (h : startsWith ["/"] rest = false) : (quotientRest unit limit a).run rest = .ok (a, rest) := by
  obtain ⟨limit, rfl⟩ := Nat.exists_eq_succ_of_ne_zero hlimit
  rw [quotientRest, run_bind_of_ok (at?_run _ _), h]
  rfl

/-- A product goes on in the same way behind a sign and without one. -/
theorem productRest_times {limit : Nat} {a : ScaledTerms R} {mark : String} (hmark : mark ∈ ["*", "·"])
    (tokens : List UnitToken) : (productRest unit (limit + 1) a).run (.mark mark :: tokens) =
      (do productRest unit limit (a.multiply (← power unit limit)) : UnitReader R _).run tokens := by
  have hbool : (mark == "*" || mark == "·") = true := by simpa using hmark
  rw [productRest, run_bind_of_ok (run_get _)]
  simp only [List.head?_cons, hbool, if_true]
  rw [run_bind_of_ok (take_run _ _)]

theorem productRest_beside {limit : Nat} {a : ScaledTerms R} {tokens : List UnitToken}
    (h : Opens tokens) : (productRest unit (limit + 1) a).run tokens =
      (do productRest unit limit (a.multiply (← power unit limit)) : UnitReader R _).run tokens := by
  obtain ⟨token, more, rfl, hmark⟩ := h
  rw [productRest, run_bind_of_ok (run_get _)]
  cases token with
  | number | name => rfl
  | mark m =>
    obtain rfl := hmark m rfl
    rfl

namespace GivesLevel

variable {s t : UnitExpression} {tokens : List UnitToken} {limit : Nat}

theorem product_ends (h : GivesLevel R unit s tokens .product) (rest : List UnitToken)
    (hlimit : 5 * (tokens ++ rest).length + 4 ≤ limit) (hrest : EndsProduct rest) :
    Gives (product unit limit) (tokens ++ rest) (s.evaluate (R := R)) rest := by
  obtain ⟨left, hleft, hrun⟩ := h limit rest hlimit hrest.endsPower
  rw [Gives, hrun]
  cases s.evaluate (R := R) with
  | ok a => exact productRest_ends (by omega) hrest
  | error => rfl

theorem quotient_ends (h : GivesLevel R unit s tokens .quotient) (rest : List UnitToken)
    (hlimit : 5 * (tokens ++ rest).length + 5 ≤ limit) (hrest : EndsProduct rest)
    (hslash : startsWith ["/"] rest = false) :
    Gives (quotient unit limit) (tokens ++ rest) (s.evaluate (R := R)) rest := by
  obtain ⟨left, hleft, hrun⟩ := h limit rest hlimit hrest
  rw [Gives, hrun]
  cases s.evaluate (R := R) with
  | ok a => exact quotientRest_ends (by omega) hslash
  | error => rfl

theorem enclosed (h : GivesLevel R unit s tokens .quotient) :
    GivesLevel R unit s (.mark "(" :: (tokens ++ [.mark ")"])) .atom := by
  intro limit rest hlimit
  obtain ⟨limit, rfl⟩ := Nat.exists_eq_succ_of_ne_zero (n := limit) (by omega)
  rw [List.cons_append, List.append_assoc, List.singleton_append] at hlimit ⊢
  rw [List.length_cons] at hlimit
  rw [UnitReader.atom]
  refine .after (take_run _ _) ?_
  refine (h.quotient_ends (.mark ")" :: rest) (by omega) (.close rest) rfl).then_pure fun a => ?_
  exact run_bind_of_ok (expect_run rfl _)

/-- An atom without an exponent. -/
theorem of_atom (h : GivesLevel R unit s tokens .atom) : GivesLevel R unit s tokens .power := by
  intro limit rest hlimit hrest
  obtain ⟨limit, rfl⟩ := Nat.exists_eq_succ_of_ne_zero (n := limit) (by omega)
  rw [UnitReader.power]
  refine (h limit rest (by omega)).then_pure fun a => ?_
  rw [run_bind_of_ok (at?_run _ _), hrest]
  rfl

theorem raised (h : GivesLevel R unit s tokens .atom) {e : ExponentExpression} {exponent : List UnitToken}
    {mark : String} (hmark : mark ∈ ["^", "**"]) (hexponent : e.Writes .alone exponent) :
    GivesLevel R unit (.power s e) (tokens ++ .mark mark :: exponent) .power := by
  intro limit rest hlimit hrest
  obtain ⟨limit, rfl⟩ := Nat.exists_eq_succ_of_ne_zero (n := limit) (by omega)
  rw [List.append_assoc, List.cons_append] at hlimit ⊢
  have hraised : startsWith ["^", "**"] (.mark mark :: (exponent ++ rest)) = true :=
    List.contains_iff_mem.mpr hmark
  have hbase := h limit (.mark mark :: (exponent ++ rest)) (by omega)
  have hpower := exponent_of_writes (R := R) unit hexponent limit rest (by simp at hlimit ⊢; omega)
  rw [UnitReader.power]
  refine hbase.bind fun a => .after (at?_run _ _) ?_
  rw [hraised]
  exact .after (take_run _ _) (hpower.bind fun k => .lift _ _)

/-- A product of one factor. -/
theorem of_factor (h : GivesLevel R unit s tokens .power) (hopens : Opens tokens) :
    GivesLevel R unit s tokens .product := by
  intro limit rest hlimit hrest
  obtain ⟨limit, rfl⟩ := Nat.exists_eq_succ_of_ne_zero (n := limit) (by omega)
  have hpos := hopens.length_pos
  refine ⟨limit, by rw [List.length_append] at hlimit; omega, ?_⟩
  rw [UnitReader.product]
  exact (h limit rest (by omega) hrest).run_bind

/-- A product takes in one more factor, behind a sign or without one. -/
theorem with_factor (between : List UnitToken) {left right : List UnitToken}
    (hs : GivesLevel R unit s left .product) (ht : GivesLevel R unit t right .power) (hopens : Opens right)
    (hfollow : ∀ rest, EndsPower (between ++ (right ++ rest)))
    (hstep : ∀ (limit : Nat) (a : ScaledTerms R) (rest : List UnitToken),
      (productRest unit (limit + 1) a).run (between ++ (right ++ rest)) =
        (do productRest unit limit (a.multiply (← UnitReader.power unit limit)) : UnitReader R _).run
          (right ++ rest)) :
    GivesLevel R unit (.product s t) (left ++ (between ++ right)) .product := by
  intro limit rest hlimit hrest
  rw [List.append_assoc, List.append_assoc] at hlimit ⊢
  obtain ⟨more, hmore, hrun⟩ := hs limit _ hlimit (hfollow rest)
  obtain ⟨more, rfl⟩ := Nat.exists_eq_succ_of_ne_zero (n := more) (by omega)
  have hpos := hopens.length_pos
  rw [List.length_append, List.length_append] at hmore
  refine ⟨more, by omega, hrun.trans ?_⟩
  rw [UnitExpression.evaluate, bind_assoc]
  refine bind_congr fun a => ?_
  rw [hstep, (ht more rest (by rw [List.length_append]; omega) hrest).run_bind, bind_assoc]
  rfl

/-- A quotient without a denominator. -/
theorem of_product (h : GivesLevel R unit s tokens .product) (hopens : Opens tokens) :
    GivesLevel R unit s tokens .quotient := by
  intro limit rest hlimit hrest
  obtain ⟨limit, rfl⟩ := Nat.exists_eq_succ_of_ne_zero (n := limit) (by omega)
  have hpos := hopens.length_pos
  refine ⟨limit, by rw [List.length_append] at hlimit; omega, ?_⟩
  rw [UnitReader.quotient]
  exact (h.product_ends rest (by omega) hrest).run_bind

theorem divided {above below : List UnitToken} (hs : GivesLevel R unit s above .quotient)
    (ht : GivesLevel R unit t below .product) (hopens : Opens below) :
    GivesLevel R unit (.quotient s t) (above ++ .mark "/" :: below) .quotient := by
  intro limit rest hlimit hrest
  rw [List.append_assoc, List.cons_append] at hlimit ⊢
  obtain ⟨more, hmore, hrun⟩ := hs limit _ hlimit (.slash _)
  obtain ⟨more, rfl⟩ := Nat.exists_eq_succ_of_ne_zero (n := more) (by omega)
  have hpos := hopens.length_pos
  rw [List.length_cons] at hmore
  refine ⟨more, by rw [List.length_append] at hmore; omega, hrun.trans ?_⟩
  rw [UnitExpression.evaluate, bind_assoc]
  refine bind_congr fun a => ?_
  rw [quotientRest, run_bind_of_ok (at?_run _ _), startsWith, if_pos (by decide),
    run_bind_of_ok (take_run _ _), (ht.product_ends rest (by omega) hrest).run_bind, bind_assoc]
  exact bind_congr fun b => (Gives.lift _ _).run_bind

end GivesLevel

/-- **Readers follow the grammar**: induction over the derivation, one case for each rule. -/
theorem level_of_writes (unit : String) {level : Level} {s : UnitExpression} {tokens : List UnitToken}
    (h : s.Writes level tokens) : GivesLevel R unit s tokens level := by
  induction h with
  | name =>
    intro limit rest hlimit
    obtain ⟨limit, rfl⟩ := Nat.exists_eq_succ_of_ne_zero (n := limit) (by omega)
    rw [atom]
    exact .after (take_run _ _) (.lift _ _)
  | number =>
    intro limit rest hlimit
    obtain ⟨limit, rfl⟩ := Nat.exists_eq_succ_of_ne_zero (n := limit) (by omega)
    rw [atom]
    exact .after (take_run _ _) (.of_ok rfl)
  | enclosed _ ih => exact ih.enclosed
  | atom _ ih => exact ih.of_atom
  | raised _ hmark hexponent ih => exact ih.raised hmark hexponent
  | power h ih => exact ih.of_factor h.opens
  | @times s t left right mark _ hmark hright ihleft ihright =>
    refine .with_factor [.mark mark] ihleft ihright hright.opens (fun rest => ?_) fun limit a rest =>
      productRest_times hmark _
    simp only [List.mem_cons, List.not_mem_nil, or_false] at hmark
    rcases hmark with rfl | rfl <;> rfl
  | beside _ hright ihleft ihright =>
    exact .with_factor [] ihleft ihright hright.opens (endsPower_of_opens hright.opens)
      fun limit a rest => productRest_beside (hright.opens.append rest)
  | product h ih => exact ih.of_product h.opens
  | divided _ hbelow ihabove ihbelow => exact ihabove.divided ihbelow hbelow.opens

/-- **Reading is evaluating**: the tokens that write an expression give its value. -/
theorem all_eq_evaluate (unit : String) {s : UnitExpression} {tokens : List UnitToken}
    (h : s.Writes .quotient tokens) : all unit tokens = (s.evaluate : Except (Fault R) _) := by
  have hlimit : 5 * (tokens ++ []).length + 5 ≤ 5 * tokens.length + 5 := by simp
  have hread := (level_of_writes (R := R) unit h).quotient_ends [] hlimit .nil rfl
  rw [List.append_nil] at hread
  rw [all, show (quotient unit (5 * tokens.length + 5)).run tokens = _ from hread]
  cases s.evaluate (R := R) <;> rfl

end UnitReader

/-- The text of an expression has its value, brought into canonical form. -/
theorem CompoundUnit.ofText_of_writes {text : String} {tokens : List UnitToken} {s : UnitExpression}
    (htokens : UnitToken.ofText (R := R) (Text.trimText text) = .ok tokens)
    (hwrites : s.Writes .quotient tokens) : (ofText text : Except (Fault R) _) = do
      let read ← s.evaluate
      let (canonical, scale) ← canonicalize read.terms
      return (canonical, read.scale * scale) := by
  have hsome : (Text.trimText text).isEmpty = false := by
    rw [← Bool.not_eq_true, String.isEmpty_iff]
    intro hempty
    rw [hempty] at htokens
    cases htokens
    exact absurd hwrites.opens.length_pos (Nat.lt_irrefl 0)
  rw [ofText]
  simp only [hsome, Bool.false_eq_true, if_false, htokens, bind, Except.bind]
  rw [UnitReader.all_eq_evaluate _ hwrites]

end Ballpark
