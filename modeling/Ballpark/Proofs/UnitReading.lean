import Ballpark.Proofs.UnitExpression

/-!
# What is read of a unit's tokens

Whatever the tokens of a unit are, they explain what their reader ends in (`UnitReader.all_explained`):
the value that comes out is that of an expression which all of them write, and what goes wrong is a fault
of their form, or the fault of an expression or an exponent that stands among them and has no value. So
what a reader of units can fail with is read off the values of expressions, and its limit, which allows
five steps for each token, never runs out.
-/

namespace Ballpark

variable {R : Type} [Scalar R]

namespace UnitReader

open Reader
open UnitTree (Level)

variable {unit : String} {α β : Type}

/-- What can go wrong with tokens of a unit: they have not the form of units, or an expression or an
exponent that stands among them has this fault for its value. -/
inductive Explained (unit : String) (tokens : List UnitToken) (f : Fault R) : Prop
  | form (issue : UnitIssue) (h : f = .unitText unit issue)
  | expression {s : UnitExpression} {part : List UnitToken} (hpart : part <:+: tokens)
      (h : s.Writes .quotient part) (hfault : s.evaluate = .error f)
  | exponent {e : ExponentExpression} {part : List UnitToken} (hpart : part <:+: tokens)
      (h : e.Writes .enclosed part) (hfault : e.evaluate (R := R) = .error f)

/-- What a reader makes of some tokens, what it takes and what it leaves are related, if it succeeds; if it
does not, that is explained by all the tokens. -/
def Takes (unit : String) (whole : List UnitToken) (m : UnitReader R α) (tokens : List UnitToken)
    (Q : α → List UnitToken → List UnitToken → Prop) : Prop :=
  Ends (m.run tokens) (fun r => ∃ front, tokens = front ++ r.2 ∧ Q r.1 front r.2) (Explained unit whole)

namespace Takes

variable {whole : List UnitToken} {m : UnitReader R α} {f : α → UnitReader R β} {token : UnitToken}
  {tokens : List UnitToken} {P : α → List UnitToken → List UnitToken → Prop}
  {Q : β → List UnitToken → List UnitToken → Prop}

theorem pure {a : α} (h : P a [] tokens) : Takes unit whole (Pure.pure a : UnitReader R α) tokens P :=
  .ok ⟨[], rfl, h⟩

theorem throw {issue : UnitIssue} :
    Takes unit whole (MonadExcept.throw (.unitText unit issue) : UnitReader R α) tokens P :=
  .error (.form issue rfl)

theorem bind (hm : Takes unit whole m tokens P) (hf : ∀ a front rest, tokens = front ++ rest →
    P a front rest → Takes unit whole (f a) rest fun b more last => Q b (front ++ more) last) :
    Takes unit whole (m >>= f) tokens Q := by
  rw [Takes, StateT.run_bind]
  refine Ends.bind hm fun r ⟨front, htokens, hfront⟩ => ?_
  refine (hf r.1 front r.2 htokens hfront).mono (fun q ⟨more, hmore, hq⟩ => ?_) fun _ => id
  exact ⟨front ++ more, by rw [htokens, hmore, List.append_assoc], hq⟩

/-- A step that takes nothing. -/
theorem after {a : α} (hm : m.run tokens = .ok (a, tokens)) (hf : Takes unit whole (f a) tokens Q) :
    Takes unit whole (m >>= f) tokens Q := by
  rw [Takes, run_bind_of_ok hm]
  exact hf

/-- A step that takes one token. -/
theorem step {a : α} (hm : m.run (token :: tokens) = .ok (a, tokens))
    (hf : Takes unit whole (f a) tokens fun b front rest => Q b (token :: front) rest) :
    Takes unit whole (m >>= f) (token :: tokens) Q := by
  rw [Takes, run_bind_of_ok hm]
  exact hf.mono (fun q ⟨more, hmore, hq⟩ => ⟨token :: more, by rw [hmore]; rfl, hq⟩) fun _ => id

theorem mono {P' : α → List UnitToken → List UnitToken → Prop} (hm : Takes unit whole m tokens P)
    (h : ∀ a front rest, P a front rest → P' a front rest) : Takes unit whole m tokens P' :=
  Ends.mono hm (fun _ ⟨front, htokens, hfront⟩ => ⟨front, htokens, h _ _ _ hfront⟩) fun _ => id

/-- A computation that takes no tokens. -/
theorem lift {x : Except (Fault R) α} (hok : ∀ a, x = .ok a → P a [] tokens)
    (herror : ∀ f, x = .error f → Explained unit whole f) :
    Takes unit whole (liftM x : UnitReader R α) tokens P := by
  rcases x with f | a
  · exact .error (herror f rfl)
  · exact .ok ⟨[], rfl, hok a rfl⟩

end Takes

omit [Scalar R] in
theorem exists_mark_of_startsWith {marks : List String} {tokens : List UnitToken}
    (h : startsWith marks tokens = true) : ∃ mark ∈ marks, ∃ rest, tokens = .mark mark :: rest := by
  rcases tokens with _ | ⟨_ | _ | mark, rest⟩
  · cases h
  · cases h
  · cases h
  · exact ⟨mark, List.contains_iff_mem.mp h, rest, rfl⟩

omit [Scalar R] in
theorem exists_of_startsWith {mark : String} {tokens : List UnitToken}
    (h : startsWith [mark] tokens = true) : ∃ rest, tokens = .mark mark :: rest := by
  obtain ⟨_, hmark, rest, rfl⟩ := exists_mark_of_startsWith h
  exact ⟨rest, by rw [List.mem_singleton.mp hmark]⟩

theorem expect_takes (text : String) (whole tokens : List UnitToken) :
    Takes unit whole (expect unit text : UnitReader R PUnit) tokens
      fun _ front _ => ∃ token, tokens.head? = some token ∧ front = [token] ∧ token.text = text := by
  rcases tokens with _ | ⟨token, rest⟩
  · exact .error (.form _ rfl)
  · by_cases h : token.text = text
    · rw [Takes, expect_run h]
      exact .ok ⟨[token], rfl, token, rfl, rfl, h⟩
    · rw [expect]
      refine .step (take_run _ _) ?_
      rw [if_neg (by simpa using h)]
      exact .throw

omit [Scalar R] in
/-- The front of the end of a list stands in it. -/
theorem infix_of_suffix (front rest : List UnitToken) {tokens : List UnitToken} (h : front ++ rest <:+ tokens) :
    front <:+: tokens :=
  (List.prefix_append front rest).isInfix.trans h.isInfix

/-- Takes an exponent. -/
def TakesExponent (R : Type) [Scalar R] (unit : String) (limit : Nat) : Prop :=
  ∀ whole tokens, tokens <:+ whole → tokens.length < limit →
    Takes unit whole (exponent unit limit : UnitReader R Rat) tokens
      fun k front _ => ∃ e : ExponentExpression, e.Writes .alone front ∧ e.evaluate (R := R) = .ok k

theorem takesExponent (limit : Nat) : TakesExponent R unit limit := by
  induction limit with
  -- without a limit nothing is read
  | zero => exact fun _ _ _ hlimit => absurd hlimit (Nat.not_lt_zero _)
  | succ limit ih =>
    intro whole tokens hwhole hlimit
    rw [exponent]
    refine .after (at?_run _ _) ?_
    rcases hopen : startsWith ["("] tokens with _ | _
    · rw [if_neg Bool.false_ne_true]
      refine .after (at?_run _ _) ?_
      extract_lets number
      -- a number behind the sign, if there is one
      have hnumber : ∀ rest, rest <:+ whole → Takes unit whole (number ()) rest fun k front _ =>
          ∃ text j, front = [.number text] ∧
            (ExponentExpression.number text).evaluate (R := R) = .ok j ∧
            k = if startsWith ["-"] tokens = true then -j else j := by
        intro rest hrest
        rcases rest with _ | ⟨token, rest⟩
        · exact .error (.form _ rfl)
        refine .step (take_run _ _) ?_
        cases token with
        | number text =>
          have hvalue : Takes unit whole (liftM (Exponent.ofScalar
              (Scalar.ofDecimal (Decimal.ofText text) : R)) : UnitReader R Rat) rest
              fun j front _ => front = [] ∧ (ExponentExpression.number text).evaluate (R := R) = .ok j :=
            .lift (fun j hj => ⟨rfl, hj⟩) fun f hf =>
              .exponent (infix_of_suffix [.number text] _ hrest) (.alone .number) hf
          refine hvalue.bind fun j front _ _ hj => ?_
          obtain ⟨rfl, hj⟩ := hj
          exact .pure ⟨text, j, rfl, hj, rfl⟩
        | name | mark => exact .throw
      rcases hminus : startsWith ["-"] tokens with _ | _
      · rw [hminus] at hnumber
        refine (hnumber tokens hwhole).mono fun k front _ hk => ?_
        obtain ⟨text, j, rfl, hj, rfl⟩ := hk
        exact ⟨_, .number, hj⟩
      · rw [hminus] at hnumber
        obtain ⟨rest, rfl⟩ := exists_of_startsWith hminus
        have hrest : rest <:+ whole := (List.suffix_cons _ _).trans hwhole
        refine .step (take_run _ _) ((hnumber rest hrest).mono fun k front _ hk => ?_)
        obtain ⟨text, j, rfl, hj, rfl⟩ := hk
        exact ⟨_, .negative, ExponentExpression.evaluate_negative hj⟩
    · -- an opening parenthesis: one exponent, or the quotient of two
      obtain ⟨rest, rfl⟩ := exists_of_startsWith hopen
      have hrest : rest <:+ whole := (List.suffix_cons _ _).trans hwhole
      rw [List.length_cons] at hlimit
      simp only [if_true]
      refine .step (take_run _ _) ((ih whole rest hrest (by omega)).bind fun k above more habove he => ?_)
      obtain ⟨e, hwrites, hvalue⟩ := he
      refine .after (at?_run _ _) ?_
      rcases hslash : startsWith ["/"] more with _ | _
      · simp only [Bool.false_eq_true, if_false]
        refine .after rfl ((expect_takes ")" whole more).bind fun _ front last _ hfront => ?_)
        obtain ⟨closing, -, rfl, hclosing⟩ := hfront
        exact .pure ⟨e, .enclosed (.alone hwrites) hclosing, hvalue⟩
      · obtain ⟨more, rfl⟩ := exists_of_startsWith hslash
        subst habove
        have hmore : more <:+ whole := (List.suffix_append_of_suffix (List.suffix_cons _ _)).trans hrest
        simp only [if_true]
        refine .step (take_run _ _) ((ih whole more hmore (by simp at hlimit; omega)).bind
          fun j below last hbelow hd => ?_)
        obtain ⟨d, hwrites', hvalue'⟩ := hd
        subst hbelow
        have hratio := hwrites.ratio hwrites'
        have heval := ExponentExpression.evaluate_ratio hvalue hvalue'
        -- the quotient by zero is a fault of these tokens
        split
        · rename_i hzero
          rw [if_pos hzero] at heval
          refine .error (.exponent (infix_of_suffix _ last ?_) hratio heval)
          simpa only [List.append_assoc, List.cons_append] using hrest
        · rename_i hzero
          rw [if_neg hzero] at heval
          refine .after rfl ((expect_takes ")" whole last).bind fun _ front last _ hfront => ?_)
          obtain ⟨closing, -, rfl, hclosing⟩ := hfront
          refine .pure ⟨_, ?_, heval⟩
          have := ExponentExpression.Writes.enclosed hratio hclosing
          simpa only [List.append_assoc, List.cons_append, List.nil_append, List.append_nil] using this

/-- What follows a product is a mark, if anything. -/
def Closes (tokens : List UnitToken) : Prop :=
  ∀ token ∈ tokens.head?, ∃ mark, token = .mark mark

/-- Some tokens write an expression with a given value. -/
def HasValue (level : Level) (tokens : List UnitToken) (a : ScaledTerms R) : Prop :=
  ∃ s : UnitExpression, s.Writes level tokens ∧ s.evaluate = .ok a

namespace HasValue

variable {left right : List UnitToken} {a b : ScaledTerms R} {mark : String}

theorem times (ha : HasValue .product left a) (hmark : mark ∈ ["*", "·"]) (hb : HasValue .power right b) :
    HasValue .product (left ++ .mark mark :: right) (a.multiply b) := by
  obtain ⟨s, hs, ha⟩ := ha
  obtain ⟨t, ht, hb⟩ := hb
  exact ⟨_, hs.times hmark ht, UnitExpression.evaluate_product ha hb⟩

theorem beside (ha : HasValue .product left a) (hb : HasValue .power right b) :
    HasValue .product (left ++ right) (a.multiply b) := by
  obtain ⟨s, hs, ha⟩ := ha
  obtain ⟨t, ht, hb⟩ := hb
  exact ⟨_, hs.beside ht, UnitExpression.evaluate_product ha hb⟩

end HasValue

/-- What the readers within a limit take, when the limit allows for the tokens. -/
structure TakesWritten (R : Type) [Scalar R] (unit : String) (limit : Nat) : Prop where
  quotient : ∀ whole tokens, tokens <:+ whole → 5 * tokens.length + 5 ≤ limit →
    Takes unit whole (quotient unit limit : UnitReader R _) tokens
      fun a front rest => HasValue .quotient front a ∧ Closes rest
  quotientRest : ∀ whole done tokens, done ++ tokens <:+ whole → 5 * tokens.length + 5 ≤ limit →
    ∀ left : ScaledTerms R, HasValue .quotient done left → Closes tokens →
    Takes unit whole (quotientRest unit limit left) tokens
      fun a front rest => HasValue .quotient (done ++ front) a ∧ Closes rest
  product : ∀ whole tokens, tokens <:+ whole → 5 * tokens.length + 4 ≤ limit →
    Takes unit whole (product unit limit : UnitReader R _) tokens
      fun a front rest => HasValue .product front a ∧ Closes rest
  productRest : ∀ whole done tokens, done ++ tokens <:+ whole → 5 * tokens.length + 4 ≤ limit →
    ∀ left : ScaledTerms R, HasValue .product done left →
    Takes unit whole (productRest unit limit left) tokens
      fun a front rest => HasValue .product (done ++ front) a ∧ Closes rest
  power : ∀ whole tokens, tokens <:+ whole → 5 * tokens.length + 3 ≤ limit →
    Takes unit whole (power unit limit : UnitReader R _) tokens fun a front _ => HasValue .power front a
  atom : ∀ whole tokens, tokens <:+ whole → 5 * tokens.length + 2 ≤ limit →
    Takes unit whole (atom unit limit : UnitReader R _) tokens fun a front _ => HasValue .atom front a

namespace TakesWritten

variable {limit : Nat}

theorem zero : TakesWritten R unit 0 where
  quotient _ _ _ hlimit := absurd hlimit (by omega)
  quotientRest _ _ _ _ hlimit := absurd hlimit (by omega)
  product _ _ _ hlimit := absurd hlimit (by omega)
  productRest _ _ _ _ hlimit := absurd hlimit (by omega)
  power _ _ _ hlimit := absurd hlimit (by omega)
  atom _ _ _ hlimit := absurd hlimit (by omega)

variable (h : TakesWritten R unit limit) {whole done tokens : List UnitToken}
include h

theorem atom_succ (hwhole : tokens <:+ whole) (hlimit : 5 * tokens.length + 2 ≤ limit + 1) :
    Takes unit whole (UnitReader.atom unit (limit + 1) : UnitReader R _) tokens
      fun a front _ => HasValue .atom front a := by
  rw [UnitReader.atom]
  rcases tokens with _ | ⟨token, rest⟩
  · exact .error (.form _ rfl)
  rw [List.length_cons] at hlimit
  have hrest : rest <:+ whole := (List.suffix_cons _ _).trans hwhole
  refine .step (take_run _ _) ?_
  split
  · exact .pure ⟨_, .number, rfl⟩
  · refine .lift (fun a ha => ⟨_, .name, ha⟩) fun f hf => ?_
    exact .expression (infix_of_suffix [_] _ hwhole) (.product (.power (.atom .name))) hf
  · refine (h.quotient whole rest hrest (by omega)).bind fun inner front more _ hfront => ?_
    obtain ⟨⟨s, hs, hvalue⟩, hcloses⟩ := hfront
    refine (expect_takes ")" whole more).bind fun _ closing last _ hclosing => ?_
    obtain ⟨token, hhead, rfl, htext⟩ := hclosing
    obtain ⟨mark, rfl⟩ := hcloses token hhead
    obtain rfl : mark = ")" := htext
    exact .pure ⟨s, by simpa using UnitExpression.Writes.enclosed hs, hvalue⟩
  · exact .throw

theorem power_succ (hwhole : tokens <:+ whole) (hlimit : 5 * tokens.length + 3 ≤ limit + 1) :
    Takes unit whole (UnitReader.power unit (limit + 1) : UnitReader R _) tokens
      fun a front _ => HasValue .power front a := by
  rw [UnitReader.power]
  refine (h.atom whole tokens hwhole (by omega)).bind fun base front rest htokens hfront => ?_
  obtain ⟨s, hs, hbase⟩ := hfront
  refine .after (at?_run _ _) ?_
  rcases hraised : startsWith ["^", "**"] rest with _ | _
  · simp only [Bool.false_eq_true, if_false]
    exact .pure ⟨s, by rw [List.append_nil]; exact .atom hs, hbase⟩
  · obtain ⟨mark, hmark, rest, rfl⟩ := exists_mark_of_startsWith hraised
    subst htokens
    have hrest : rest <:+ whole := (List.suffix_append_of_suffix (List.suffix_cons _ _)).trans hwhole
    simp only [if_true]
    refine .step (take_run _ _) ((takesExponent limit whole rest hrest (by simp at hlimit; omega)).bind
      fun k exponent last hlast he => ?_)
    obtain ⟨e, he, hk⟩ := he
    subst hlast
    have hwrites := hs.raised hmark he
    have hvalue := UnitExpression.evaluate_power hbase hk
    refine .lift (fun a ha => ⟨_, by simpa using hwrites, hvalue.trans ha⟩) fun f hf => ?_
    refine .expression (infix_of_suffix _ last ?_) (.product (.power hwrites)) (hvalue.trans hf)
    simpa only [List.append_assoc, List.cons_append] using hwhole

theorem product_succ (hwhole : tokens <:+ whole) (hlimit : 5 * tokens.length + 4 ≤ limit + 1) :
    Takes unit whole (UnitReader.product unit (limit + 1) : UnitReader R _) tokens
      fun a front rest => HasValue .product front a ∧ Closes rest := by
  rw [UnitReader.product]
  refine (h.power whole tokens hwhole (by omega)).bind fun a front rest htokens hfront => ?_
  obtain ⟨s, hs, ha⟩ := hfront
  subst htokens
  have hpos := hs.opens.length_pos
  rw [List.length_append] at hlimit
  exact h.productRest whole front rest hwhole (by omega) a ⟨s, .power hs, ha⟩

theorem productRest_succ (hwhole : done ++ tokens <:+ whole) (hlimit : 5 * tokens.length + 4 ≤ limit + 1)
    (left : ScaledTerms R) (hdone : HasValue .product done left) :
    Takes unit whole (UnitReader.productRest unit (limit + 1) left) tokens
      fun a front rest => HasValue .product (done ++ front) a ∧ Closes rest := by
  -- a product goes on in the same way behind a sign and without one
  have hnext : ∀ (sign tokens : List UnitToken), done ++ (sign ++ tokens) <:+ whole →
      5 * tokens.length + 3 ≤ limit → (∀ b front, HasValue .power front b →
        HasValue .product (done ++ (sign ++ front)) (left.multiply b)) →
      Takes unit whole
        (do UnitReader.productRest unit limit (left.multiply (← UnitReader.power unit limit))) tokens
        fun a front rest => HasValue .product (done ++ (sign ++ front)) a ∧ Closes rest := by
    intro sign tokens hwhole hlimit hsign
    have htokens : tokens <:+ whole := by
      rw [← List.append_assoc] at hwhole
      exact (List.suffix_append _ _).trans hwhole
    refine (h.power whole tokens htokens hlimit).bind fun b front rest hfront hb => ?_
    subst hfront
    obtain ⟨t, ht, -⟩ := id hb
    have hpos := ht.opens.length_pos
    rw [List.length_append] at hlimit
    have hrest := h.productRest whole (done ++ (sign ++ front)) rest
      (by simpa only [List.append_assoc] using hwhole) (by omega) _ (hsign b front hb)
    simpa only [List.append_assoc] using hrest
  have hbeside := hnext [] tokens hwhole (by omega) fun b front hb => hdone.beside hb
  rw [UnitReader.productRest]
  refine .after (run_get _) ?_
  rcases tokens with _ | ⟨token, rest⟩
  · refine .pure ⟨by rwa [List.append_nil], fun _ hc => ?_⟩
    cases hc
  cases token with
  | number | name => exact hbeside
  | mark m =>
    rw [List.length_cons] at hlimit
    simp only [List.head?_cons]
    split
    · rename_i htimes
      have hmark : m ∈ ["*", "·"] := by simpa using htimes
      exact .step (take_run _ _) (hnext [.mark m] rest hwhole (by omega)
        fun b front hb => hdone.times hmark hb)
    split
    · exact hbeside
    · exact .pure ⟨by rwa [List.append_nil], fun token hc => ⟨m, (Option.some.inj hc).symm⟩⟩

theorem quotient_succ (hwhole : tokens <:+ whole) (hlimit : 5 * tokens.length + 5 ≤ limit + 1) :
    Takes unit whole (UnitReader.quotient unit (limit + 1) : UnitReader R _) tokens
      fun a front rest => HasValue .quotient front a ∧ Closes rest := by
  rw [UnitReader.quotient]
  refine (h.product whole tokens hwhole (by omega)).bind fun a front rest htokens hfront => ?_
  obtain ⟨⟨s, hs, ha⟩, hcloses⟩ := hfront
  subst htokens
  have hpos := hs.opens.length_pos
  rw [List.length_append] at hlimit
  exact h.quotientRest whole front rest hwhole (by omega) a ⟨s, .product hs, ha⟩ hcloses

theorem quotientRest_succ (hwhole : done ++ tokens <:+ whole)
    (hlimit : 5 * tokens.length + 5 ≤ limit + 1) (left : ScaledTerms R)
    (hdone : HasValue .quotient done left) (hcloses : Closes tokens) :
    Takes unit whole (UnitReader.quotientRest unit (limit + 1) left) tokens
      fun a front rest => HasValue .quotient (done ++ front) a ∧ Closes rest := by
  rw [UnitReader.quotientRest]
  refine .after (at?_run _ _) ?_
  rcases hslash : startsWith ["/"] tokens with _ | _
  · -- the loop is over: what has been read so far is the quotient
    exact .pure ⟨by rwa [List.append_nil], hcloses⟩
  · obtain ⟨rest, rfl⟩ := exists_of_startsWith hslash
    have hrest : rest <:+ whole := (List.suffix_append_of_suffix (List.suffix_cons _ _)).trans hwhole
    rw [List.length_cons] at hlimit
    simp only [if_true]
    refine .step (take_run _ _) ((h.product whole rest hrest (by omega)).bind
      fun b front more hmore hfront => ?_)
    obtain ⟨⟨t, ht, hb⟩, hlast⟩ := hfront
    obtain ⟨s, hs, hleft⟩ := hdone
    subst hmore
    have hwrites := hs.divided ht
    have hvalue := UnitExpression.evaluate_quotient hleft hb
    -- what has been read so far and what stands below the slash are a quotient again
    have hwhole' : (done ++ .mark "/" :: front) ++ more <:+ whole := by
      simpa only [List.append_assoc, List.cons_append] using hwhole
    have hdivide : Takes unit whole (liftM (left.divide b) : UnitReader R _) more fun c none rest =>
        none = [] ∧ rest = more ∧ HasValue .quotient (done ++ .mark "/" :: front) c :=
      .lift (fun c hc => ⟨rfl, rfl, _, hwrites, hvalue.trans hc⟩) fun f hf =>
        .expression (infix_of_suffix _ _ hwhole') hwrites (hvalue.trans hf)
    refine hdivide.bind fun c none last _ hnone => ?_
    obtain ⟨rfl, rfl, hc⟩ := hnone
    rw [List.length_append] at hlimit
    have hnext := h.quotientRest whole _ last hwhole' (by omega) c hc hlast
    simpa only [List.append_assoc, List.cons_append, List.nil_append] using hnext

theorem succ : TakesWritten R unit (limit + 1) :=
  ⟨fun _ _ => h.quotient_succ, fun _ _ _ => h.quotientRest_succ, fun _ _ => h.product_succ,
    fun _ _ _ => h.productRest_succ, fun _ _ => h.power_succ, fun _ _ => h.atom_succ⟩

end TakesWritten

/-- Induction on the limit. -/
theorem takesWritten (limit : Nat) : TakesWritten R unit limit := by
  induction limit with
  | zero => exact .zero
  | succ limit ih => exact ih.succ

/-- **What is read is explained by the tokens**: the value that comes out is that of an expression which
they write, and a fault is one of their form, or of an expression that stands among them. -/
theorem all_explained (unit : String) (tokens : List UnitToken) :
    Ends (all unit tokens : Except (Fault R) _) (HasValue .quotient tokens) (Explained unit tokens) := by
  have htakes : TakesWritten R unit (5 * tokens.length + 5) := takesWritten _
  have hread := htakes.quotient tokens tokens (List.suffix_refl _) (Nat.le_refl _)
  refine Ends.bind hread fun r hr => ?_
  obtain ⟨read, rest⟩ := r
  obtain ⟨front, htokens, hvalue, -⟩ := hr
  rcases rest with _ | ⟨token, rest⟩
  · rw [htokens, List.append_nil]
    exact .ok hvalue
  · exact .error (.form _ rfl)

end UnitReader

end Ballpark
