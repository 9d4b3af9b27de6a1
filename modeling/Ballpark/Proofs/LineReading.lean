import Mathlib.Data.List.DropRight
import Ballpark.Proofs.ProgramReading

/-!
# Reading up to the end of a line

What is read from the tokens of a text is read from them just as well when a further line follows. The
end of a line is treated like the end of the text by every test that a reader makes, and a reader that
looks further ahead has always found the tokens before to be none of the two. So a reader that succeeds
on the tokens of a text, with the end behind them, makes the same of them with a newline and more behind
them, and stops at the same token (`TokenReader.FollowsOn`). The limits on the way may be larger then,
as they only have to be large enough.

The readers of expressions follow one another in this sense by induction on the limit
(`followsExpressions`), and each of them takes at least one token, so the reader of statements never
comes to the end of its own limit (`ReadsAs.of_extends`).
-/

namespace Ballpark.TokenReader

variable {α β : Type}

/-! ## Tokens that are treated alike -/

/-- Does a text or a line end with the token? -/
def IsEnd (t : Token) : Prop :=
  t.kind = .finish ∨ t.kind = .newline

/-- Tokens that no test tells apart: the same token at different places, or the end of the text and
another end. -/
inductive Alike : Token → Token → Prop
  | same {t u : Token} (ht : t.kind ≠ .finish) (hkind : u.kind = t.kind) (htext : u.text = t.text) :
    Alike t u
  | ends {t u : Token} (ht : t.kind = .finish) (hu : IsEnd u) : Alike t u

namespace Alike

variable {t u : Token}

theorem isMark (h : Alike t u) (marks : List String) :
    TokenReader.isMark marks u = TokenReader.isMark marks t := by
  cases h with
  | same _ hkind htext => rw [TokenReader.isMark, TokenReader.isMark, hkind, htext]
  | ends ht hu =>
    rw [not_isMark_of_kind (by rcases hu with hu | hu <;> simp [hu]),
      not_isMark_of_kind (by simp [ht])]

theorem kind_beq (h : Alike t u) {kind : TokenKind} (hfinish : kind ≠ .finish) (hnewline : kind ≠ .newline) :
    (u.kind == kind) = (t.kind == kind) := by
  cases h with
  | same _ hkind => rw [hkind]
  | ends ht hu =>
    rw [ht, beq_eq_false_iff_ne.mpr hfinish.symm]
    rcases hu with hu | hu
    · rw [hu, beq_eq_false_iff_ne.mpr hfinish.symm]
    · rw [hu, beq_eq_false_iff_ne.mpr hnewline.symm]

theorem isWord (h : Alike t u) (word : String) :
    TokenReader.isWord word u = TokenReader.isWord word t := by
  cases h with
  | same _ hkind htext => rw [TokenReader.isWord, TokenReader.isWord, hkind, htext]
  | ends ht hu =>
    rw [not_isWord_of_kind (by rcases hu with hu | hu <;> simp [hu]),
      not_isWord_of_kind (by simp [ht])]

theorem isFreeName (h : Alike t u) : TokenReader.isFreeName u = TokenReader.isFreeName t := by
  cases h with
  | same _ hkind htext => rw [TokenReader.isFreeName, TokenReader.isFreeName, hkind, htext]
  | ends ht hu =>
    rw [not_isFreeName_of_kind (by rcases hu with hu | hu <;> simp [hu]),
      not_isFreeName_of_kind (by simp [ht])]

theorem text (h : Alike t u) (ht : t.kind ≠ .finish) : u.text = t.text := by
  cases h with
  | same _ _ htext => exact htext
  | ends hfinish => exact absurd hfinish ht

theorem isUnit (h : Alike t u) : TokenReader.isUnit u = TokenReader.isUnit t := by
  by_cases ht : t.kind = .finish
  · rw [TokenReader.isUnit, TokenReader.isUnit, h.isFreeName, h.kind_beq (by decide) (by decide),
      not_isFreeName_of_kind (by simp [ht]), Bool.false_and, Bool.false_and]
  · rw [TokenReader.isUnit, TokenReader.isUnit, h.isFreeName, h.kind_beq (by decide) (by decide),
      h.text ht]

theorem ne_finish (h : Alike t u) (ht : t.kind ≠ .finish) : u.kind ≠ .finish := by
  cases h with
  | same _ hkind => exact hkind.symm ▸ ht
  | ends hfinish => exact absurd hfinish ht

theorem isSeparator (h : Alike t u) (ht : t.kind ≠ .finish) :
    TokenReader.isSeparator u = TokenReader.isSeparator t := by
  cases h with
  | same ht hkind htext =>
    rw [TokenReader.isSeparator, TokenReader.isSeparator, (Alike.same ht hkind htext).isMark, hkind]
  | ends hfinish => exact absurd hfinish ht

/-- Where one statement has ended, so has the other. -/
theorem closes (h : Alike t u) (ht : (TokenReader.isSeparator t || t.kind == .finish) = true) :
    (TokenReader.isSeparator u || u.kind == .finish) = true := by
  cases h with
  | same hfinish hkind htext =>
    rwa [(Alike.same hfinish hkind htext).isSeparator hfinish, hkind]
  | ends _ hu =>
    rcases hu with hu | hu
    · simp [hu]
    · simp [TokenReader.isSeparator, hu]

end Alike

/-! ## Texts that go on -/

/-- The second tokens go on where the first come to their end: there stands `rest`, and up to there they
are alike. -/
inductive Extends : List Token → List Token → List Token → Prop
  | close {f e : Token} {more : List Token} (hf : f.kind = .finish) (he : IsEnd e) :
    Extends (e :: more) [f] (e :: more)
  | cons {rest ts us : List Token} {t u : Token} (ht : t.kind ≠ .finish) (hkind : u.kind = t.kind)
    (htext : u.text = t.text) (h : Extends rest ts us) : Extends rest (t :: ts) (u :: us)

namespace Extends

variable {rest σ σ' : List Token}

theorem pos (h : Extends rest σ σ') : 0 < σ.length := by
  cases h with
  | close | cons => exact Nat.succ_pos _

theorem length_eq (h : Extends rest σ σ') : σ'.length + 1 = σ.length + rest.length := by
  induction h with
  | close => exact Nat.add_comm _ _
  | cons _ _ _ _ ih =>
    rw [List.length_cons, List.length_cons]
    omega

theorem length_le (h : Extends rest σ σ') : σ.length ≤ σ'.length := by
  induction h with
  | close => exact Nat.succ_le_succ (Nat.zero_le _)
  | cons _ _ _ _ ih => exact Nat.succ_le_succ ih

theorem alike (h : Extends rest σ σ') : Alike (tokenAt σ 0) (tokenAt σ' 0) := by
  cases h with
  | close hf he => exact .ends hf he
  | cons ht hkind htext => exact .same ht hkind htext

theorem tail (h : Extends rest σ σ') (ht : (tokenAt σ 0).kind ≠ .finish) :
    Extends rest (σ.drop 1) (σ'.drop 1) := by
  cases h with
  | close hf => exact absurd hf ht
  | cons _ _ _ h => exact h

theorem tokenAt_succ {t : Token} {tokens : List Token} (h : 0 < tokens.length) (offset : Nat) :
    tokenAt (t :: tokens) (offset + 1) = tokenAt tokens offset := by
  obtain ⟨u, more, rfl⟩ := List.exists_cons_of_length_pos h
  rfl

theorem alike_succ (h : Extends rest σ σ') (ht : (tokenAt σ 0).kind ≠ .finish) (offset : Nat) :
    tokenAt σ (offset + 1) = tokenAt (σ.drop 1) offset ∧
      tokenAt σ' (offset + 1) = tokenAt (σ'.drop 1) offset := by
  cases h with
  | close hf => exact absurd hf ht
  | cons _ _ _ h => exact ⟨tokenAt_succ h.pos _, tokenAt_succ (Nat.lt_of_lt_of_le h.pos h.length_le) _⟩

theorem alike_one (h : Extends rest σ σ') (ht : (tokenAt σ 0).kind ≠ .finish) :
    Alike (tokenAt σ 1) (tokenAt σ' 1) := by
  obtain ⟨hfirst, hsecond⟩ := h.alike_succ ht 0
  rw [hfirst, hsecond]
  exact (h.tail ht).alike

theorem alike_two (h : Extends rest σ σ') (ht : (tokenAt σ 0).kind ≠ .finish)
    (hnext : (tokenAt σ 1).kind ≠ .finish) : Alike (tokenAt σ 2) (tokenAt σ' 2) := by
  obtain ⟨hfirst, hsecond⟩ := h.alike_succ ht 1
  rw [hfirst, hsecond]
  rw [(h.alike_succ ht 0).1] at hnext
  exact (h.tail ht).alike_one hnext

theorem tail_two (h : Extends rest σ σ') (ht : (tokenAt σ 0).kind ≠ .finish)
    (hnext : (tokenAt σ 1).kind ≠ .finish) : Extends rest (σ.drop 2) (σ'.drop 2) := by
  rw [(h.alike_succ ht 0).1] at hnext
  have htail := (h.tail ht).tail hnext
  rwa [List.drop_drop, List.drop_drop] at htail

theorem tail_three (h : Extends rest σ σ') (ht : (tokenAt σ 0).kind ≠ .finish)
    (hnext : (tokenAt σ 1).kind ≠ .finish) (hthird : (tokenAt σ 2).kind ≠ .finish) :
    Extends rest (σ.drop 3) (σ'.drop 3) := by
  rw [(h.alike_succ ht 1).1] at hthird
  rw [(h.alike_succ ht 0).1] at hnext
  have htail := (h.tail ht).tail_two hnext hthird
  rwa [List.drop_drop, List.drop_drop] at htail

end Extends

/-- A reader that succeeds on some tokens takes at least `taken` of them, and another does the same on
tokens that go on. -/
def FollowsOn (rest σ σ' : List Token) (taken : Nat) (m m' : TokenReader α) : Prop :=
  ∀ a τ, m.run σ = .ok (a, τ) →
    ∃ τ', m'.run σ' = .ok (a, τ') ∧ Extends rest τ τ' ∧ τ.length + taken ≤ σ.length

/-- A reader follows another on all tokens that go on. -/
def Follows (taken : Nat) (m m' : TokenReader α) : Prop :=
  ∀ ⦃rest σ σ'⦄, Extends rest σ σ' → FollowsOn rest σ σ' taken m m'

namespace FollowsOn

variable {rest σ σ' : List Token} {taken : Nat} {m m' : TokenReader α}

theorem pure (h : Extends rest σ σ') (a : α) :
    FollowsOn rest σ σ' 0 (Pure.pure a) (Pure.pure a) := by
  intro b τ hrun
  cases hrun
  exact ⟨σ', rfl, h, Nat.le_refl _⟩

theorem of_error {f : ProgramFault} (hm : m.run σ = .error f) : FollowsOn rest σ σ' taken m m' :=
  fun _ _ hrun => nomatch hm.symm.trans hrun

theorem failAt (t : Token) (issue : ProgramIssue) :
    FollowsOn rest σ σ' taken (TokenReader.failAt t issue) m' :=
  of_error rfl

theorem loosen (hm : FollowsOn rest σ σ' taken m m') : FollowsOn rest σ σ' 0 m m' := by
  intro a τ hrun
  obtain ⟨τ', hrun', hτ, hlength⟩ := hm a τ hrun
  exact ⟨τ', hrun', hτ, by omega⟩

theorem bind {f f' : α → TokenReader β} (hm : FollowsOn rest σ σ' taken m m')
    (hf : ∀ a, Follows 0 (f a) (f' a)) : FollowsOn rest σ σ' taken (m >>= f) (m' >>= f') := by
  intro b υ hrun
  rw [StateT.run_bind] at hrun
  obtain ⟨⟨a, τ⟩, hfirst, hsecond⟩ := ok_of_bind hrun
  obtain ⟨τ', hfirst', hτ, hlength⟩ := hm a τ hfirst
  obtain ⟨υ', hsecond', hυ, hlength'⟩ := hf a hτ b υ hsecond
  refine ⟨υ', ?_, hυ, by omega⟩
  rw [Reader.run_bind_of_ok hfirst']
  exact hsecond'

theorem ite {c c' : Prop} [Decidable c] [Decidable c'] {n n' : TokenReader α} (hc : c' ↔ c)
    (hm : c → FollowsOn rest σ σ' taken m m') (hn : ¬c → FollowsOn rest σ σ' taken n n') :
    FollowsOn rest σ σ' taken (if c then m else n) (if c' then m' else n') := by
  by_cases h : c
  · rw [if_pos h, if_pos (hc.mpr h)]
    exact hm h
  · rw [if_neg h, if_neg (mt hc.mp h)]
    exact hn h

/-- Both go on from where they have looked ahead. -/
theorem peeked {f f' : Token → TokenReader α} (offset : Nat)
    (hf : FollowsOn rest σ σ' taken (f (tokenAt σ offset)) (f' (tokenAt σ' offset))) :
    FollowsOn rest σ σ' taken (peek offset >>= f) (peek offset >>= f') :=
  hf

theorem got {f f' : List Token → TokenReader α} (hf : FollowsOn rest σ σ' taken (f σ) (f' σ')) :
    FollowsOn rest σ σ' taken (get >>= f) (get >>= f') :=
  hf

/-- Some tokens are skipped. -/
theorem dropped {f f' : PUnit → TokenReader α} {count : Nat} (hpos : 0 < σ.length)
    (hf : FollowsOn rest (σ.drop (count + 1)) (σ'.drop (count + 1)) 0 (f ⟨⟩) (f' ⟨⟩)) :
    FollowsOn rest σ σ' 1 (TokenReader.skip (count + 1) >>= f) (TokenReader.skip (count + 1) >>= f') := by
  intro a τ hrun
  obtain ⟨τ', hrun', hτ, hlength⟩ := hf a τ hrun
  rw [List.length_drop] at hlength
  exact ⟨τ', hrun', hτ, by omega⟩

/-- A token that is not the end of the text is skipped. -/
theorem skip {f f' : PUnit → TokenReader α} (h : Extends rest σ σ')
    (ht : (tokenAt σ 0).kind ≠ .finish) (hf : Follows 0 (f ⟨⟩) (f' ⟨⟩)) :
    FollowsOn rest σ σ' 1 (TokenReader.skip 1 >>= f) (TokenReader.skip 1 >>= f') :=
  .dropped h.pos (hf (h.tail ht))

/-- A token that is not the end of the text is taken. -/
theorem advance {f f' : Token → TokenReader α} (h : Extends rest σ σ')
    (ht : (tokenAt σ 0).kind ≠ .finish)
    (hf : FollowsOn rest (σ.drop 1) (σ'.drop 1) 0 (f (tokenAt σ 0)) (f' (tokenAt σ' 0))) :
    FollowsOn rest σ σ' 1 (TokenReader.advance >>= f) (TokenReader.advance >>= f') := by
  have hrun : ∀ {τ : List Token} (g : Token → TokenReader α), (tokenAt τ 0).kind ≠ .finish →
      (TokenReader.advance >>= g).run τ = (TokenReader.skip 1 >>= fun _ => g (tokenAt τ 0)).run τ := by
    intro τ g hτ
    rw [TokenReader.advance, bind_assoc, Reader.run_bind_of_ok (run_peek 0 τ),
      if_pos (by simpa using hτ)]
    rfl
  intro a τ hfirst
  rw [hrun f ht] at hfirst
  rw [hrun f' (h.alike.ne_finish ht)]
  exact dropped h.pos hf a τ hfirst

theorem atMark {f f' : Bool → TokenReader α} (h : Extends rest σ σ') (marks : List String)
    (hf : FollowsOn rest σ σ' taken (f (isMark marks (tokenAt σ 0)))
      (f' (isMark marks (tokenAt σ 0)))) :
    FollowsOn rest σ σ' taken (TokenReader.atMark marks >>= f) (TokenReader.atMark marks >>= f') := by
  have hread : FollowsOn rest σ σ' taken (f (isMark marks (tokenAt σ 0)))
      (f' (isMark marks (tokenAt σ' 0))) := by rwa [h.alike.isMark]
  exact hread

theorem atWord {f f' : Bool → TokenReader α} (h : Extends rest σ σ') (word : String)
    (hf : FollowsOn rest σ σ' taken (f (isWord word (tokenAt σ 0)))
      (f' (isWord word (tokenAt σ 0)))) :
    FollowsOn rest σ σ' taken (TokenReader.atWord word >>= f) (TokenReader.atWord word >>= f') := by
  have hread : FollowsOn rest σ σ' taken (f (isWord word (tokenAt σ 0)))
      (f' (isWord word (tokenAt σ' 0))) := by rwa [h.alike.isWord]
  exact hread

end FollowsOn

namespace Follows

variable {taken : Nat} {m m' : TokenReader α}

theorem pure (a : α) : Follows 0 (Pure.pure a) (Pure.pure a) :=
  fun _ _ _ h => .pure h a

theorem bind {f f' : α → TokenReader β} (hm : Follows taken m m') (hf : ∀ a, Follows 0 (f a) (f' a)) :
    Follows taken (m >>= f) (m' >>= f') :=
  fun _ _ _ h => (hm h).bind hf

theorem loosen (hm : Follows taken m m') : Follows 0 m m' :=
  fun _ _ _ h => (hm h).loosen

theorem tooDeep : Follows taken (TokenReader.tooDeep : TokenReader α) m' :=
  fun _ _ _ _ => .of_error rfl

end Follows

/-! ## Tokens that are no end -/

section

variable {t : Token}

theorem ne_finish_of_kind {kind : TokenKind} (h : (t.kind == kind) = true) (hkind : kind ≠ .finish) :
    t.kind ≠ .finish := by
  rw [beq_iff_eq.mp h]
  exact hkind

theorem ne_finish_of_isMark {marks : List String} (h : isMark marks t = true) : t.kind ≠ .finish := by
  rw [isMark, Bool.and_eq_true] at h
  exact ne_finish_of_kind h.1 (by decide)

theorem ne_finish_of_isWord {word : String} (h : isWord word t = true) : t.kind ≠ .finish := by
  rw [isWord, Bool.and_eq_true] at h
  exact ne_finish_of_kind h.1 (by decide)

theorem ne_finish_of_isFreeName (h : isFreeName t = true) : t.kind ≠ .finish := by
  rw [isFreeName, Bool.and_eq_true] at h
  exact ne_finish_of_kind h.1 (by decide)

theorem ne_finish_of_isUnit (h : isUnit t = true) : t.kind ≠ .finish := by
  rcases kind_of_isUnit h with h | h
  · simp [h]
  · simp [h]

end

/-! ## Readers of single tokens -/

theorem follows_failHere {taken : Nat} {m' : TokenReader α} (issue : Token → ProgramIssue) :
    Follows taken (failHere issue) m' :=
  fun _ _ _ _ => .of_error rfl

theorem follows_expectMark (mark : String) : Follows 1 (expectMark mark) (expectMark mark) := by
  intro rest σ σ' h
  rw [expectMark]
  refine .atMark h _ (.ite .rfl (fun hmark => ?_) fun _ => follows_failHere _ h)
  exact FollowsOn.skip h (ne_finish_of_isMark hmark) (Follows.pure PUnit.unit)

theorem follows_expectWord (word : String) : Follows 1 (expectWord word) (expectWord word) := by
  intro rest σ σ' h
  rw [expectWord]
  refine .atWord h _ (.ite .rfl (fun hword => ?_) fun _ => follows_failHere _ h)
  exact FollowsOn.skip h (ne_finish_of_isWord hword) (Follows.pure PUnit.unit)

theorem follows_expectName : Follows 1 expectName expectName := by
  intro rest σ σ' h
  rw [expectName]
  refine .peeked 0 (.ite (by rw [h.alike.isFreeName]) (fun hname => ?_) fun _ => .failAt _ _)
  have ht := ne_finish_of_isFreeName hname
  rw [h.alike.text ht]
  exact .skip h ht (.pure _)

/-! ## Units -/

section

variable {rest σ σ' : List Token}

theorem Extends.isUnitWord (h : Extends rest σ σ') :
    TokenReader.isUnitWord (tokenAt σ' 0) (tokenAt σ' 1) =
      TokenReader.isUnitWord (tokenAt σ 0) (tokenAt σ 1) := by
  rw [TokenReader.isUnitWord, TokenReader.isUnitWord, h.alike.isUnit, h.alike.isFreeName]
  rcases hname : isFreeName (tokenAt σ 0) with _ | _
  · simp only [Bool.false_and]
  · have ht := ne_finish_of_isFreeName hname
    rw [h.alike.text ht, (h.alike_one ht).isMark]

theorem Extends.isTwiddle (h : Extends rest σ σ') :
    TokenReader.isTwiddle (tokenAt σ' 0) (tokenAt σ' 1) (tokenAt σ' 2) =
      TokenReader.isTwiddle (tokenAt σ 0) (tokenAt σ 1) (tokenAt σ 2) := by
  rw [TokenReader.isTwiddle, TokenReader.isTwiddle, h.alike.isMark]
  rcases hwave : isMark ["~"] (tokenAt σ 0) with _ | _
  · simp only [Bool.false_and]
  have ht := ne_finish_of_isMark hwave
  rw [(h.alike_one ht).kind_beq (by decide) (by decide)]
  rcases hnumber : (tokenAt σ 1).kind == .number with _ | _
  · simp only [Bool.and_false, Bool.false_and]
  have hthird := h.alike_two ht (ne_finish_of_kind hnumber (by decide))
  rw [hthird.isMark, hthird.isWord, hthird.isWord]

/-- The limit is large enough, so the reader stops where no unit goes on. -/
theorem followsOn_unitWords {limit limit' : Nat} (hlimit : σ.length ≤ limit) (hle : limit ≤ limit')
    (words : List String) (h : Extends rest σ σ') :
    FollowsOn rest σ σ' 0 (unitWords limit words) (unitWords limit' words) := by
  induction limit generalizing limit' σ σ' words with
  | zero => exact absurd hlimit (Nat.not_le_of_lt h.pos)
  | succ limit ih =>
    obtain ⟨limit', rfl⟩ : ∃ l, limit' = l + 1 := ⟨limit' - 1, by omega⟩
    -- what is dropped is within the limit
    have hdropped : ∀ {count : Nat} (words : List String),
        Extends rest (σ.drop (count + 1)) (σ'.drop (count + 1)) →
        FollowsOn rest σ σ' 0 (skip (count + 1) >>= fun _ => unitWords limit words)
          (skip (count + 1) >>= fun _ => unitWords limit' words) := by
      intro count words hdrop
      refine (FollowsOn.dropped h.pos (ih ?_ (by omega) words hdrop)).loosen
      rw [List.length_drop]
      omega
    rw [unitWords, unitWords]
    refine .peeked 0 (.peeked 1 (.ite (by rw [h.alike.isMark]) (fun hhat => ?_) fun _ => ?_))
    · have ht := ne_finish_of_isMark hhat
      have hnext := h.alike_one ht
      refine .ite (by rw [hnext.kind_beq (by decide) (by decide)]) (fun hnumber => ?_) fun _ => ?_
      · have hone := ne_finish_of_kind hnumber (by decide)
        rw [hnext.text hone]
        exact hdropped _ (h.tail_two ht hone)
      · refine .peeked 2 (.ite ?_ (fun hminus => ?_) fun _ => .pure h _)
        · rw [hnext.isMark]
          rcases hminus : isMark ["-"] (tokenAt σ 1) with _ | _
          · simp only [Bool.false_and]
          · rw [(h.alike_two ht (ne_finish_of_isMark hminus)).kind_beq (by decide) (by decide)]
        · obtain ⟨hminus, hnumber⟩ := Bool.and_eq_true_iff.mp hminus
          have hone := ne_finish_of_isMark hminus
          have htwo := ne_finish_of_kind hnumber (by decide)
          rw [(h.alike_two ht hone).text htwo]
          exact hdropped _ (h.tail_three ht hone htwo)
    · refine .ite ?_ (fun hover => ?_) fun _ => ?_
      · rw [h.alike.isMark, h.alike.isWord]
        rcases hover : isMark ["/"] (tokenAt σ 0) || isWord "per" (tokenAt σ 0) with _ | _
        · simp only [Bool.false_and]
        · have ht := (Bool.or_eq_true_iff.mp hover).elim ne_finish_of_isMark ne_finish_of_isWord
          rw [(h.alike_one ht).isUnit]
      · obtain ⟨hover, hunit⟩ := Bool.and_eq_true_iff.mp hover
        have ht := (Bool.or_eq_true_iff.mp hover).elim ne_finish_of_isMark ne_finish_of_isWord
        have hone := ne_finish_of_isUnit hunit
        rw [(h.alike_one ht).text hone]
        exact hdropped _ (h.tail_two ht hone)
      · refine .ite (by rw [h.alike.isUnit]) (fun hunit => ?_) fun _ => .pure h _
        have ht := ne_finish_of_isUnit hunit
        rw [h.alike.text ht]
        exact hdropped _ (h.tail ht)

theorem followsOn_unitText (h : Extends rest σ σ') (ht : (tokenAt σ 0).kind ≠ .finish) :
    FollowsOn rest σ σ' 1 unitText unitText := by
  rw [unitText]
  refine .advance h ht (.got ?_)
  have htail := h.tail ht
  rw [h.alike.text ht]
  exact (followsOn_unitWords (Nat.le_refl _) htail.length_le _ htail).bind fun _ => .pure _

theorem follows_trailingUnit : Follows 0 trailingUnit trailingUnit := by
  intro rest σ σ' h
  rw [trailingUnit]
  refine .peeked 0 (.peeked 1 (.ite (by rw [h.isUnitWord]) (fun hunit => ?_) fun _ => .pure h _))
  have ht : (tokenAt σ 0).kind ≠ .finish := by
    rw [TokenReader.isUnitWord, Bool.or_eq_true_iff, Bool.and_eq_true_iff, Bool.and_eq_true_iff] at hunit
    exact hunit.elim ne_finish_of_isUnit fun h => ne_finish_of_isFreeName h.1.1
  exact ((followsOn_unitText h ht).bind fun _ => .pure _).loosen

theorem followsOn_targetWords {limit limit' : Nat} (hlimit : σ.length ≤ limit) (hle : limit ≤ limit')
    (words : List String) (depth : Nat) (h : Extends rest σ σ') :
    FollowsOn rest σ σ' 0 (targetWords limit words depth) (targetWords limit' words depth) := by
  induction limit generalizing limit' σ σ' words depth with
  | zero => exact absurd hlimit (Nat.not_le_of_lt h.pos)
  | succ limit ih =>
    obtain ⟨limit', rfl⟩ : ∃ l, limit' = l + 1 := ⟨limit' - 1, by omega⟩
    -- a word that is taken brings the rest of the tokens below the limit
    have hdropped : ∀ (words : List String) (depth : Nat), (tokenAt σ 0).kind ≠ .finish →
        FollowsOn rest σ σ' 0 (skip 1 >>= fun _ => targetWords limit words depth)
          (skip 1 >>= fun _ => targetWords limit' words depth) := by
      intro words depth ht
      refine (FollowsOn.dropped h.pos (ih ?_ (by omega) words depth (h.tail ht))).loosen
      rw [List.length_drop]
      omega
    rw [targetWords, targetWords]
    -- names, labels, numbers and marks of a unit go on at the same depth, parentheses change it
    refine .peeked 0 (.ite ?_ (fun hpart => ?_) fun _ => ?_)
    · rw [h.alike.isFreeName, h.alike.kind_beq (by decide) (by decide),
        h.alike.kind_beq (by decide) (by decide), h.alike.isMark, h.alike.isMark]
    · have ht : (tokenAt σ 0).kind ≠ .finish := by
        simp only [Bool.or_eq_true_iff, Bool.and_eq_true_iff] at hpart
        rcases hpart with (((hname | hlabel) | hnumber) | hmark) | hminus
        · exact ne_finish_of_isFreeName hname
        · exact ne_finish_of_kind hlabel (by decide)
        · exact ne_finish_of_kind hnumber.1 (by decide)
        · exact ne_finish_of_isMark hmark
        · exact ne_finish_of_isMark hminus.1
      rw [h.alike.text ht]
      exact hdropped _ _ ht
    · refine .ite (by rw [h.alike.isMark]) (fun hopening => ?_) fun _ => ?_
      · have ht := ne_finish_of_isMark hopening
        rw [h.alike.text ht]
        exact hdropped _ _ ht
      · refine .ite (by rw [h.alike.isMark]) (fun hclosing => ?_) fun _ => .pure h _
        have ht := ne_finish_of_isMark (Bool.and_eq_true_iff.mp hclosing).1
        rw [h.alike.text ht]
        exact hdropped _ _ ht

end

theorem follows_conversionTarget : Follows 0 conversionTarget conversionTarget := by
  intro rest σ σ' h
  rw [conversionTarget]
  refine .atWord h _ (.ite .rfl (fun hword => ?_) fun _ => .got ?_)
  · exact (FollowsOn.skip h (ne_finish_of_isWord hword) (Follows.pure "SI")).loosen
  · refine (followsOn_targetWords (Nat.le_refl _) h.length_le _ _ h).bind fun words => ?_
    split
    · exact follows_failHere _
    · exact .pure _

/-! ## Twiddles -/

theorem FollowsOn.atTwiddle {rest σ σ' : List Token} {taken : Nat} {f f' : Bool → TokenReader α}
    (h : Extends rest σ σ') (hf : ∀ twiddle, twiddle = isTwiddle (tokenAt σ 0) (tokenAt σ 1) (tokenAt σ 2) →
      FollowsOn rest σ σ' taken (f twiddle) (f' twiddle)) :
    FollowsOn rest σ σ' taken (TokenReader.atTwiddle >>= f) (TokenReader.atTwiddle >>= f') := by
  have hread : FollowsOn rest σ σ' taken
      (f (isTwiddle (tokenAt σ 0) (tokenAt σ 1) (tokenAt σ 2)))
      (f' (isTwiddle (tokenAt σ' 0) (tokenAt σ' 1) (tokenAt σ' 2))) := by
    rw [h.isTwiddle]
    exact hf _ rfl
  exact hread

theorem followsOn_twiddle {rest σ σ' : List Token} (h : Extends rest σ σ')
    (htwiddle : isTwiddle (tokenAt σ 0) (tokenAt σ 1) (tokenAt σ 2) = true) :
    FollowsOn rest σ σ' 1 twiddle twiddle := by
  rw [isTwiddle, Bool.and_eq_true_iff, Bool.and_eq_true_iff] at htwiddle
  obtain ⟨⟨hwave, hnumber⟩, hmark⟩ := htwiddle
  have ht := ne_finish_of_isMark hwave
  have hone := ne_finish_of_kind hnumber (by decide)
  have htwo : (tokenAt σ 2).kind ≠ .finish := by
    simp only [Bool.or_eq_true_iff] at hmark
    rcases hmark with (hmark | hword) | hword
    · exact ne_finish_of_isMark hmark
    · exact ne_finish_of_isWord hword
    · exact ne_finish_of_isWord hword
  rw [twiddle]
  -- the two tokens behind the wave are the first ones behind it
  rw [(h.alike_succ ht 0).1] at hone
  rw [(h.alike_succ ht 1).1, ((h.tail ht).alike_succ hone 0).1] at htwo
  have hsecond := (h.tail ht).tail hone
  refine .dropped h.pos (FollowsOn.advance (h.tail ht) hone ?_).loosen
  refine (FollowsOn.advance hsecond htwo ?_).loosen
  rw [(h.tail ht).alike.text hone, hsecond.alike.text htwo]
  exact .pure (hsecond.tail htwo) _

/-! ## Expressions -/

/-- The readers of expressions within one limit are followed by those within another. -/
structure FollowsExpressions (limit limit' : Nat) : Prop where
  expression : Follows 1 (expression limit) (expression limit')
  conversions : ∀ n, Follows 0 (conversions limit n) (conversions limit' n)
  comparison : Follows 1 (comparison limit) (comparison limit')
  additive : Follows 1 (additive limit) (additive limit')
  additiveRest : ∀ n, Follows 0 (additiveRest limit n) (additiveRest limit' n)
  term : Follows 1 (term limit) (term limit')
  termRest : ∀ n, Follows 0 (termRest limit n) (termRest limit' n)
  range : Follows 1 (range limit) (range limit')
  unary : Follows 1 (unary limit) (unary limit')
  power : Follows 1 (power limit) (power limit')
  twiddled : Follows 1 (twiddled limit) (twiddled limit')
  twiddledRest : ∀ n, Follows 0 (twiddledRest limit n) (twiddledRest limit' n)
  primary : Follows 1 (primary limit) (primary limit')
  arguments : Follows 1 (arguments limit) (arguments limit')
  pairs : Follows 1 (pairs limit) (pairs limit')

namespace FollowsExpressions

variable {limit limit' : Nat}

theorem zero (limit' : Nat) : FollowsExpressions 0 limit' where
  expression := .tooDeep
  conversions _ := .tooDeep
  comparison := .tooDeep
  additive := .tooDeep
  additiveRest _ := .tooDeep
  term := .tooDeep
  termRest _ := .tooDeep
  range := .tooDeep
  unary := .tooDeep
  power := .tooDeep
  twiddled := .tooDeep
  twiddledRest _ := .tooDeep
  primary := .tooDeep
  arguments := .tooDeep
  pairs := .tooDeep

theorem conversions_succ (h : FollowsExpressions limit limit') (n : Node) :
    Follows 0 (TokenReader.conversions (limit + 1) n) (TokenReader.conversions (limit' + 1) n) := by
  intro rest σ σ' hσ
  rw [TokenReader.conversions, TokenReader.conversions]
  refine .atMark hσ _ (.atWord hσ _ (.ite .rfl (fun hsign => ?_) fun _ => .pure hσ _))
  have ht : (tokenAt σ 0).kind ≠ .finish :=
    (Bool.or_eq_true_iff.mp hsign).elim ne_finish_of_isMark ne_finish_of_isWord
  exact (FollowsOn.skip hσ ht (follows_conversionTarget.bind fun _ => h.conversions _)).loosen

theorem comparison_succ (h : FollowsExpressions limit limit') :
    Follows 1 (TokenReader.comparison (limit + 1)) (TokenReader.comparison (limit' + 1)) := by
  rw [TokenReader.comparison, TokenReader.comparison]
  refine h.additive.bind fun left _ σ σ' hσ => .peeked 0 ?_
  refine .ite (by rw [hσ.alike.isMark]) (fun hmark => ?_) fun _ => .pure hσ _
  have ht := ne_finish_of_isMark hmark
  rw [hσ.alike.text ht]
  exact (FollowsOn.skip hσ ht (h.additive.bind fun _ => .pure _).loosen).loosen

/-- A loop that goes on while an operator follows. -/
theorem follows_operands {marks : List String} {operand operand' : TokenReader Node}
    {loop loop' : Node → TokenReader Node} (hoperand : Follows 1 operand operand')
    (hloop : ∀ n, Follows 0 (loop n) (loop' n)) (left : Node) :
    Follows 0 (do
      let t ← peek 0
      if isMark marks t then
        skip 1
        loop (.binary (.ofText t.text) left (← operand))
      else return left) (do
      let t ← peek 0
      if isMark marks t then
        skip 1
        loop' (.binary (.ofText t.text) left (← operand'))
      else return left) := by
  intro rest σ σ' hσ
  refine .peeked 0 (.ite (by rw [hσ.alike.isMark]) (fun hmark => ?_) fun _ => .pure hσ _)
  have ht := ne_finish_of_isMark hmark
  rw [hσ.alike.text ht]
  exact (FollowsOn.skip hσ ht (hoperand.bind fun _ => hloop _).loosen).loosen

theorem range_succ (h : FollowsExpressions limit limit') :
    Follows 1 (TokenReader.range (limit + 1)) (TokenReader.range (limit' + 1)) := by
  rw [TokenReader.range, TokenReader.range]
  refine h.unary.bind fun left _ σ σ' hσ => .peeked 0 ?_
  have halike := hσ.alike
  -- a range reads the unit behind it
  have hrange : ∀ make : Node → Option String → Node, (tokenAt σ 0).kind ≠ .finish →
      FollowsOn _ σ σ' 0 (do
        skip 1
        let right ← TokenReader.unary limit
        return make right (← trailingUnit)) (do
        skip 1
        let right ← TokenReader.unary limit'
        return make right (← trailingUnit)) := fun make ht =>
    (FollowsOn.skip hσ ht (h.unary.bind fun _ => follows_trailingUnit.bind fun _ => .pure _).loosen).loosen
  refine .ite (by rw [halike.isWord]) (fun hword => hrange _ (ne_finish_of_isWord hword)) fun _ => ?_
  refine .ite (by rw [halike.isMark]) (fun hmark => hrange _ (ne_finish_of_isMark hmark)) fun _ => ?_
  refine .ite (by rw [halike.isMark]) (fun hmark => hrange _ (ne_finish_of_isMark hmark)) fun _ => ?_
  refine .ite (by rw [halike.isWord]) (fun hword => ?_) fun _ =>
    .ite (by rw [halike.isWord]) (fun hword => ?_) fun _ => .pure hσ _
  · refine (FollowsOn.skip hσ (ne_finish_of_isWord hword) ?_).loosen
    exact ((follows_expectWord "of").bind fun _ => (h.unary.bind fun _ => .pure _).loosen).loosen
  · exact (FollowsOn.skip hσ (ne_finish_of_isWord hword)
      (h.unary.bind fun _ => .pure _).loosen).loosen

theorem unary_succ (h : FollowsExpressions limit limit') :
    Follows 1 (TokenReader.unary (limit + 1)) (TokenReader.unary (limit' + 1)) := by
  intro rest σ σ' hσ
  rw [TokenReader.unary, TokenReader.unary]
  refine .peeked 0 (.ite (by rw [hσ.alike.isMark]) (fun hmark => ?_) fun _ => ?_)
  · exact .skip hσ (ne_finish_of_isMark hmark) (h.unary.bind fun _ => .pure _).loosen
  · refine .ite (by rw [hσ.alike.isMark]) (fun hmark => ?_) fun _ => h.power hσ
    exact .skip hσ (ne_finish_of_isMark hmark) h.unary.loosen

theorem power_succ (h : FollowsExpressions limit limit') :
    Follows 1 (TokenReader.power (limit + 1)) (TokenReader.power (limit' + 1)) := by
  rw [TokenReader.power, TokenReader.power]
  refine h.twiddled.bind fun base _ σ σ' hσ => .atMark hσ _ ?_
  refine .ite .rfl (fun hhat => ?_) fun _ => .pure hσ _
  exact (FollowsOn.skip hσ (ne_finish_of_isMark hhat) (h.unary.bind fun _ => .pure _).loosen).loosen

theorem twiddledRest_succ (h : FollowsExpressions limit limit') (n : Node) :
    Follows 0 (TokenReader.twiddledRest (limit + 1) n) (TokenReader.twiddledRest (limit' + 1) n) := by
  intro rest σ σ' hσ
  rw [TokenReader.twiddledRest, TokenReader.twiddledRest]
  refine .atTwiddle hσ fun twiddle htwiddle => .ite .rfl (fun hyes => ?_) fun _ => .pure hσ _
  exact ((followsOn_twiddle hσ (htwiddle ▸ hyes)).bind fun _ => h.twiddledRest _).loosen

theorem arguments_succ (h : FollowsExpressions limit limit') :
    Follows 1 (TokenReader.arguments (limit + 1)) (TokenReader.arguments (limit' + 1)) := by
  rw [TokenReader.arguments, TokenReader.arguments]
  refine h.expression.bind fun first _ σ σ' hσ => .atMark hσ _ ?_
  refine .ite .rfl (fun hcomma => ?_) fun _ => .pure hσ _
  exact (FollowsOn.skip hσ (ne_finish_of_isMark hcomma)
    (h.arguments.bind fun _ => .pure _).loosen).loosen

theorem pairs_succ (h : FollowsExpressions limit limit') :
    Follows 1 (TokenReader.pairs (limit + 1)) (TokenReader.pairs (limit' + 1)) := by
  rw [TokenReader.pairs, TokenReader.pairs]
  refine h.additive.bind fun value => (Follows.bind (follows_expectMark ":") fun _ => ?_).loosen
  refine (h.additive.bind fun weight _ σ σ' hσ => .atMark hσ _ ?_).loosen
  refine .ite .rfl (fun hcomma => ?_) fun _ => .pure hσ _
  refine (FollowsOn.skip hσ (ne_finish_of_isMark hcomma) fun _ σ σ' hσ => .atMark hσ _ ?_).loosen
  refine .ite .rfl (fun _ => .pure hσ _) fun _ => ?_
  exact (h.pairs.bind fun _ => .pure _).loosen hσ

/-- Reads a name that is no keyword: a call, or a name of its own. -/
def nameOrCall (limit : Nat) (name : String) (isCalled : Bool) : TokenReader Node := do
  skip 1
  if isCalled then
    skip 1
    if ← atMark [")"] then
      skip 1
      return .call name []
    else
      let found ← TokenReader.arguments limit
      expectMark ")"
      return .call name found
  else return .identifier name

theorem followsOn_nameOrCall (h : FollowsExpressions limit limit') {rest σ σ' : List Token}
    (hσ : Extends rest σ σ') (ht : (tokenAt σ 0).kind ≠ .finish) (name : String) :
    FollowsOn rest σ σ' 1 (nameOrCall limit name (isMark ["("] (tokenAt σ 1)))
      (nameOrCall limit' name (isMark ["("] (tokenAt σ 1))) := by
  have htail := hσ.tail ht
  rw [nameOrCall, nameOrCall]
  refine .dropped hσ.pos (.ite .rfl (fun hopening => ?_) fun _ => .pure htail _)
  rw [(hσ.alike_succ ht 0).1] at hopening
  refine (FollowsOn.skip htail (ne_finish_of_isMark hopening) fun _ τ τ' hτ => .atMark hτ _ ?_).loosen
  refine .ite .rfl (fun hclosing => ?_) fun _ => ?_
  · exact (FollowsOn.skip hτ (ne_finish_of_isMark hclosing) (Follows.pure (Node.call name []))).loosen
  · exact (h.arguments.bind fun found => ((follows_expectMark ")").bind fun _ => .pure _).loosen).loosen hτ

theorem primary_succ (h : FollowsExpressions limit limit') :
    Follows 1 (TokenReader.primary (limit + 1)) (TokenReader.primary (limit' + 1)) := by
  intro rest σ σ' hσ
  have halike := hσ.alike
  rw [TokenReader.primary, TokenReader.primary]
  refine .peeked 0 (.peeked 1 ?_)
  -- the kinds of tokens in the order in which the reader asks for them
  refine .ite (by rw [halike.kind_beq (by decide) (by decide)]) (fun hnumber => ?_) fun _ =>
    .ite (by rw [halike.kind_beq (by decide) (by decide)]) (fun hlabel => ?_) fun _ =>
    .ite (by rw [halike.isMark]) (fun hwave => ?_) fun _ =>
    .ite (by rw [halike.isMark]) (fun hopening => ?_) fun _ =>
    .ite (by rw [halike.isMark]) (fun hopening => ?_) fun _ =>
    .ite (by rw [halike.kind_beq (by decide) (by decide)]) (fun hname => ?_) fun _ => .failAt _ _
  · -- a number and its unit
    have ht := ne_finish_of_kind hnumber (by decide)
    rw [halike.text ht]
    exact .skip hσ ht (follows_trailingUnit.bind fun _ => .pure _)
  · -- a unit in quotes
    exact (followsOn_unitText hσ (ne_finish_of_kind hlabel (by decide))).bind fun _ => .pure _
  · refine .atTwiddle hσ fun twiddle htwiddle => .ite .rfl (fun hyes => ?_) fun _ => ?_
    · exact followsOn_twiddle hσ (htwiddle ▸ hyes)
    · refine .skip hσ (ne_finish_of_isMark hwave) fun _ τ τ' hτ => .peeked 0 ?_
      -- behind a tilde without a partner only a number makes sense
      refine .ite (by rw [hτ.alike.kind_beq (by decide) (by decide)]) (fun hnumber => ?_) fun _ =>
        .failAt _ _
      have ht := ne_finish_of_kind hnumber (by decide)
      rw [hτ.alike.text ht]
      exact (FollowsOn.skip hτ ht (follows_trailingUnit.bind fun _ => .pure _)).loosen
  · -- parentheses, which may have a unit behind them
    refine .skip hσ (ne_finish_of_isMark hopening) (h.expression.bind fun inner => ?_).loosen
    refine ((follows_expectMark ")").bind fun _ _ τ τ' hτ => .peeked 0 ?_).loosen
    refine .ite (by rw [hτ.alike.isUnit]) (fun hunit => ?_) fun _ => .pure hτ _
    exact ((followsOn_unitText hτ (ne_finish_of_isUnit hunit)).bind fun _ => .pure _).loosen
  · -- a weighted set
    refine .skip hσ (ne_finish_of_isMark hopening) (h.pairs.bind fun nodes => ?_).loosen
    exact ((follows_expectMark "\x7d").bind fun _ => follows_trailingUnit.bind fun _ => .pure _).loosen
  · have ht := ne_finish_of_kind hname (by decide)
    have hnext := hσ.alike_one ht
    rw [halike.text ht, hnext.isMark]
    -- words that open an expression of their own, words that no expression begins with, and other names
    refine .ite .rfl (fun _ => ?_) fun _ => .ite .rfl (fun _ => ?_) fun _ =>
      .ite .rfl (fun _ => .failAt _ _) fun _ => h.followsOn_nameOrCall hσ ht _
    · refine .skip hσ ht (follows_expectName.bind fun name => ?_).loosen
      refine ((follows_expectMark "=").bind fun _ => (h.expression.bind fun value => ?_).loosen).loosen
      exact ((follows_expectWord "in").bind fun _ => (h.expression.bind fun _ => .pure _).loosen).loosen
    · refine .skip hσ ht (h.expression.bind fun condition => ?_).loosen
      refine ((follows_expectWord "then").bind fun _ => (h.expression.bind fun yes => ?_).loosen).loosen
      exact ((follows_expectWord "else").bind fun _ => (h.expression.bind fun _ => .pure _).loosen).loosen

theorem succ (h : FollowsExpressions limit limit') : FollowsExpressions (limit + 1) (limit' + 1) where
  expression := by
    rw [TokenReader.expression, TokenReader.expression]
    exact h.comparison.bind fun _ => h.conversions _
  conversions := h.conversions_succ
  comparison := h.comparison_succ
  additive := by
    rw [TokenReader.additive, TokenReader.additive]
    exact h.term.bind fun _ => h.additiveRest _
  additiveRest n := by
    rw [TokenReader.additiveRest, TokenReader.additiveRest]
    exact follows_operands h.term h.additiveRest n
  term := by
    rw [TokenReader.term, TokenReader.term]
    exact h.range.bind fun _ => h.termRest _
  termRest n := by
    rw [TokenReader.termRest, TokenReader.termRest]
    exact follows_operands h.range h.termRest n
  range := h.range_succ
  unary := h.unary_succ
  power := h.power_succ
  twiddled := by
    rw [TokenReader.twiddled, TokenReader.twiddled]
    exact h.primary.bind fun _ => h.twiddledRest _
  twiddledRest := h.twiddledRest_succ
  primary := h.primary_succ
  arguments := h.arguments_succ
  pairs := h.pairs_succ

end FollowsExpressions

/-- **Expressions are read up to the end of a line**: induction on the smaller limit. -/
theorem followsExpressions {limit limit' : Nat} (h : limit ≤ limit') :
    FollowsExpressions limit limit' := by
  induction limit generalizing limit' with
  | zero => exact .zero limit'
  | succ limit ih =>
    obtain ⟨limit', rfl⟩ : ∃ l, limit' = l + 1 := ⟨limit' - 1, by omega⟩
    exact (ih (by omega)).succ

theorem follows_wholeExpression : Follows 1 wholeExpression wholeExpression := by
  intro rest σ σ' h
  rw [wholeExpression]
  have hlimit : limitFor σ ≤ limitFor σ' := by
    have hlength := h.length_le
    rw [limitFor, limitFor]
    omega
  exact .got ((followsExpressions hlimit).expression h)

/-! ## Statements -/

section

variable {rest σ σ' : List Token}

theorem not_isFreeName_of_isEnd {e : Token} (he : IsEnd e) : isFreeName e = false := by
  rcases he with he | he
  · exact not_isFreeName_of_kind (by simp [he])
  · exact not_isFreeName_of_kind (by simp [he])

theorem not_parametersAhead_of_isEnd {e : Token} (he : IsEnd e) (more : List Token) :
    parametersAhead (e :: more) = false := by
  rcases more with _ | ⟨t, more⟩
  · rw [parametersAhead]
    simp
  · rw [parametersAhead, not_isFreeName_of_isEnd he, Bool.false_and]

theorem Extends.head?_isMark (h : Extends rest σ σ') (marks : List String) :
    σ'.head?.any (isMark marks) = σ.head?.any (isMark marks) := by
  have halike := h.alike.isMark marks
  cases h with
  | close | cons => exact halike

/-- The scan takes two tokens at a time, so it is followed from here and from one token earlier. -/
theorem parametersAhead_of_extends (h : Extends rest σ σ') :
    parametersAhead σ' = parametersAhead σ ∧ ∀ t u, Alike t u →
      parametersAhead (u :: σ') = parametersAhead (t :: σ) := by
  induction h with
  | @close f e more hf he =>
    refine ⟨by rw [not_parametersAhead_of_isEnd he, not_parametersAhead_of_isEnd (.inl hf)], ?_⟩
    intro t u htu
    -- behind the name stands the end, in both
    have hmark := fun marks => (Alike.ends hf he).isMark marks
    have hnone := fun marks => not_isMark_of_kind (t := f) (by simp [hf]) marks
    rw [parametersAhead, parametersAhead, htu.isFreeName]
    simp only [hmark, hnone, Bool.false_and, Bool.false_eq_true, if_false]
  | @cons _ ts us t u ht hkind htext h ih =>
    have hsame := Alike.same ht hkind htext
    refine ⟨ih.2 t u hsame, fun name name' hname => ?_⟩
    rw [parametersAhead, parametersAhead, hname.isFreeName, hsame.isMark, hsame.isMark, h.head?_isMark,
      ih.1]

theorem definitionAhead_of_extends (h : Extends rest σ σ') :
    definitionAhead σ' = definitionAhead σ := by
  rw [definitionAhead, definitionAhead, h.alike.isMark,
    (parametersAhead_of_extends h).1]
  rcases hclosing : isMark [")"] (tokenAt σ 0) with _ | _
  · rfl
  · rw [(h.alike_one (ne_finish_of_isMark hclosing)).isMark]

end

theorem follows_parameters {limit limit' : Nat} (h : limit ≤ limit') :
    Follows 1 (parameters limit) (parameters limit') := by
  induction limit generalizing limit' with
  | zero => exact .tooDeep
  | succ limit ih =>
    obtain ⟨limit', rfl⟩ : ∃ l, limit' = l + 1 := ⟨limit' - 1, by omega⟩
    rw [parameters, parameters]
    refine follows_expectName.bind fun first _ σ σ' hσ => .atMark hσ _ ?_
    refine .ite .rfl (fun hcomma => ?_) fun _ => .pure hσ _
    exact (FollowsOn.skip hσ (ne_finish_of_isMark hcomma)
      ((ih (by omega)).bind fun _ => .pure _).loosen).loosen

theorem followsOn_functionDefinition {rest σ σ' : List Token} (h : Extends rest σ σ')
    (ht : (tokenAt σ 0).kind ≠ .finish) (hopening : (tokenAt σ 1).kind ≠ .finish) (name : String) :
    FollowsOn rest σ σ' 1 (functionDefinition name) (functionDefinition name) := by
  have htail := h.tail_two ht hopening
  rw [functionDefinition]
  refine .dropped h.pos (FollowsOn.atMark htail _ ?_)
  have hbody := fun names : List String => (follows_expectMark ")").bind fun _ =>
    ((follows_expectMark "=").bind fun _ =>
      (follows_wholeExpression.bind fun value => .pure (Node.functionDefinition name names value)).loosen).loosen
  refine .ite .rfl (fun _ => ?_) fun _ => .got ?_
  · exact (FollowsOn.pure htail []).bind fun names => (hbody names).loosen
  · exact ((follows_parameters htail.length_le htail).bind fun names => (hbody names).loosen).loosen

/-- **A statement is read up to the end of its line.** -/
theorem follows_statement : Follows 1 statement statement := by
  intro rest σ σ' h
  have halike := h.alike
  rw [statement]
  refine .got ?_
  -- what a statement begins with, in the order in which the reader asks for it
  refine .ite ?_ (fun hassign => ?_) fun _ => .ite ?_ (fun hdefine => ?_) fun _ =>
    .ite ?_ (fun hunit => ?_) fun _ => follows_wholeExpression h
  · -- the second token is looked at only behind a free name, so both readers see the same one
    rw [halike.isFreeName]
    rcases hname : isFreeName (tokenAt σ 0) with _ | _
    · simp only [Bool.false_and]
    · rw [(h.alike_one (ne_finish_of_isFreeName hname)).isMark]
  · obtain ⟨hname, hmark⟩ := Bool.and_eq_true_iff.mp hassign
    have ht := ne_finish_of_isFreeName hname
    rw [halike.text ht]
    exact .dropped h.pos ((follows_wholeExpression.bind fun _ => .pure _).loosen
      (h.tail_two ht (ne_finish_of_isMark hmark)))
  · rw [halike.isFreeName]
    rcases hname : isFreeName (tokenAt σ 0) with _ | _
    · simp only [Bool.false_and]
    have ht := ne_finish_of_isFreeName hname
    rw [(h.alike_one ht).isMark]
    rcases hmark : isMark ["("] (tokenAt σ 1) with _ | _
    · simp only [Bool.and_false, Bool.false_and]
    · rw [definitionAhead_of_extends (h.tail_two ht (ne_finish_of_isMark hmark))]
  · obtain ⟨hcall, -⟩ := Bool.and_eq_true_iff.mp hdefine
    obtain ⟨hname, hmark⟩ := Bool.and_eq_true_iff.mp hcall
    have ht := ne_finish_of_isFreeName hname
    rw [halike.text ht]
    exact followsOn_functionDefinition h ht (ne_finish_of_isMark hmark) _
  · -- again a token is looked at only where the one in front of it fits
    rw [halike.kind_beq (by decide) (by decide)]
    rcases hnumber : (tokenAt σ 0).kind == .number with _ | _
    · simp only [Bool.false_and]
    have ht := ne_finish_of_kind hnumber (by decide)
    rw [(h.alike_one ht).kind_beq (by decide) (by decide)]
    rcases hlabel : (tokenAt σ 1).kind == .label with _ | _
    · simp only [Bool.and_false, Bool.false_and]
    · rw [(h.alike_two ht (ne_finish_of_kind hlabel (by decide))).isMark]
  · obtain ⟨hhead, hmark⟩ := Bool.and_eq_true_iff.mp hunit
    obtain ⟨hnumber, hlabel⟩ := Bool.and_eq_true_iff.mp hhead
    have ht := ne_finish_of_kind hnumber (by decide)
    have hone := ne_finish_of_kind hlabel (by decide)
    rw [halike.text ht, (h.alike_one ht).text hone]
    exact .dropped h.pos ((follows_wholeExpression.bind fun _ => .pure _).loosen
      (h.tail_three ht hone (ne_finish_of_isMark hmark)))

/-! ## Statements line by line -/

/-- The tokens are read as statements, within any limit that is large enough. -/
def ReadsAs (tokens : List Token) (nodes : List Node) : Prop :=
  ∀ limit, tokens.length ≤ limit → ∃ rest, (statements limit).run tokens = .ok (nodes, rest)

/-- Reads a statement and, behind a separator, those that follow. -/
def statementAndMore (limit : Nat) : TokenReader (List Node) := do
  let first ← statement
  let t ← peek 0
  if isSeparator t || t.kind == .finish then return first :: (← statements limit)
  else failAt t (.unexpected t.shown)

theorem run_statements_succ (limit : Nat) (tokens : List Token) :
    (statements (limit + 1)).run tokens =
      if (tokenAt (tokens.dropWhile isSeparator) 0).kind == .finish then
        .ok ([], tokens.dropWhile isSeparator)
      else (statementAndMore limit).run (tokens.dropWhile isSeparator) := by
  have hskip : (modify (·.dropWhile isSeparator) : TokenReader PUnit).run tokens =
      .ok (⟨⟩, tokens.dropWhile isSeparator) := rfl
  rw [statements, Reader.run_bind_of_ok hskip, Reader.run_bind_of_ok (run_peek 0 _)]
  split
  · rfl
  · rfl

/-- Separators in front make no difference. -/
theorem run_statements_dropWhile (limit : Nat) (tokens : List Token) :
    (statements (limit + 1)).run (tokens.dropWhile isSeparator) = (statements (limit + 1)).run tokens := by
  rw [run_statements_succ, run_statements_succ, List.dropWhile_idempotent]

theorem not_isSeparator_of_finish {t : Token} (ht : t.kind = .finish) : isSeparator t = false := by
  rw [isSeparator, not_isMark_of_kind (by simp [ht]), ht]
  rfl

theorem Extends.dropWhile {rest σ σ' : List Token} (h : Extends rest σ σ') :
    ((tokenAt (σ.dropWhile isSeparator) 0).kind = .finish ∧
      σ'.dropWhile isSeparator = rest.dropWhile isSeparator) ∨
    ((tokenAt (σ.dropWhile isSeparator) 0).kind ≠ .finish ∧
      Extends rest (σ.dropWhile isSeparator) (σ'.dropWhile isSeparator)) := by
  induction h with
  | @close f e more hf he =>
    refine .inl ⟨?_, rfl⟩
    rw [List.dropWhile_cons_of_neg (by simp [not_isSeparator_of_finish hf])]
    exact hf
  | @cons rest ts us t u ht hkind htext h ih =>
    have hsame : isSeparator u = isSeparator t := (Alike.same ht hkind htext).isSeparator ht
    rcases hseparator : isSeparator t with _ | _
    · rw [List.dropWhile_cons_of_neg (by simp [hseparator]),
        List.dropWhile_cons_of_neg (by simp [hsame, hseparator])]
      exact .inr ⟨ht, .cons ht hkind htext h⟩
    · rw [List.dropWhile_cons_of_pos hseparator, List.dropWhile_cons_of_pos (hsame.trans hseparator)]
      exact ih

/-- **Statements are read line by line**: those of some tokens, and those of what they go on with. -/
theorem ReadsAs.of_extends {limit : Nat} {rest σ σ' τ : List Token} {nodes after : List Node}
    (hlimit : σ.length ≤ limit) (hrun : (statements limit).run σ = .ok (nodes, τ))
    (h : Extends rest σ σ') (hrest : ReadsAs rest after) : ReadsAs σ' (nodes ++ after) := by
  induction limit generalizing σ σ' nodes with
  | zero => exact absurd hlimit (Nat.not_le_of_lt h.pos)
  | succ limit ih =>
    intro limit' hlimit'
    have hpos := h.pos
    have hlength := h.length_eq
    have hle := h.length_le
    obtain ⟨limit', rfl⟩ : ∃ l, limit' = l + 1 := ⟨limit' - 1, by omega⟩
    rw [run_statements_succ] at hrun
    rcases h.dropWhile with ⟨hend, hdrop⟩ | ⟨ht, hdrop⟩
    · -- nothing but separators before the end
      rw [if_pos (beq_iff_eq.mpr hend)] at hrun
      cases hrun
      rw [← run_statements_dropWhile, hdrop, run_statements_dropWhile]
      exact hrest _ (by omega)
    · rw [if_neg (by simpa using ht), statementAndMore, StateT.run_bind] at hrun
      obtain ⟨⟨first, υ⟩, hfirst, hrun⟩ := ok_of_bind hrun
      obtain ⟨υ', hfirst', hυ, htaken⟩ := follows_statement hdrop first υ hfirst
      have hdropped := (List.dropWhile_sublist isSeparator (l := σ)).length_le
      have hlength' := hυ.length_eq
      -- the statement ends at a separator or at the end
      rw [Reader.run_bind_of_ok (run_peek 0 υ)] at hrun
      split at hrun
      · rename_i hcloses
        rw [StateT.run_bind] at hrun
        obtain ⟨⟨others, _⟩, hothers, hpure⟩ := ok_of_bind hrun
        cases hpure
        obtain ⟨τ', hothers'⟩ := ih (by omega) hothers hυ limit' (by omega)
        refine ⟨τ', ?_⟩
        rw [run_statements_succ, if_neg (by simpa using hdrop.alike.ne_finish ht), statementAndMore,
          Reader.run_bind_of_ok hfirst', Reader.run_bind_of_ok (run_peek 0 υ'),
          if_pos (hυ.alike.closes hcloses), Reader.run_bind_of_ok hothers']
        rfl
      · cases hrun

end Ballpark.TokenReader
