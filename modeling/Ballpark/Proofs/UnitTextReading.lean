import Ballpark.Proofs.ProgramLexing
import Ballpark.Proofs.ProgramReading

/-!
# Reading units in programs

Readers of tokens only ever drop some, so what is true of all tokens stays true (`TokenReader.Gives`).
What they read for a unit or for the target of a conversion is then made of parts: `gives_trailingUnit`
and `gives_conversionTarget`.
-/

namespace Ballpark.TokenReader

variable {α β : Type}

/-- Tokens that are what their kinds say. -/
def AllLexed (tokens : List Token) : Prop :=
  ∀ t ∈ tokens, t.IsLexed

/-- From some tokens a reader gives a value with a property, if it gives one. -/
def GivesOn (tokens : List Token) (m : TokenReader α) (P : α → Prop) : Prop :=
  Ends (m.run tokens) (fun r => P r.1 ∧ AllLexed r.2) fun _ => True

/-- Whatever a reader gives has a property. -/
def Gives (m : TokenReader α) (P : α → Prop) : Prop :=
  ∀ tokens, AllLexed tokens → GivesOn tokens m P

/-- A reader that leaves only tokens that it has found. -/
class OnlyDrops (m : TokenReader α) : Prop where
  gives : Gives m fun _ => True

namespace GivesOn

variable {tokens : List Token} {P Q : α → Prop} {T : β → Prop}

theorem bind {m : TokenReader α} {f : α → TokenReader β} (hm : GivesOn tokens m P)
    (hf : ∀ a, P a → Gives (f a) T) : GivesOn tokens (m >>= f) T :=
  Ends.bind hm fun r hr => hf r.1 hr.1 r.2 hr.2

theorem mono {m : TokenReader α} (hm : GivesOn tokens m P) (h : ∀ a, P a → Q a) : GivesOn tokens m Q :=
  Ends.mono hm (fun _ hr => ⟨h _ hr.1, hr.2⟩) fun _ => id

theorem ite {c : Prop} [Decidable c] {m n : TokenReader α} (hm : c → GivesOn tokens m P)
    (hn : ¬c → GivesOn tokens n P) : GivesOn tokens (if c then m else n) P := by
  split
  · exact hm ‹_›
  · exact hn ‹_›

/-- The rest is read from where the next token has been looked at. -/
theorem peeked {f : Token → TokenReader α} (offset : Nat) (hf : GivesOn tokens (f (tokenAt tokens offset)) P) :
    GivesOn tokens (peek offset >>= f) P :=
  hf

end GivesOn

namespace Gives

variable {P Q : α → Prop} {T : β → Prop}

theorem pure {a : α} (h : P a) : Gives (Pure.pure a) P :=
  fun _ htokens => .ok ⟨h, htokens⟩

theorem bind {m : TokenReader α} {f : α → TokenReader β} (hm : Gives m P)
    (hf : ∀ a, P a → Gives (f a) T) : Gives (m >>= f) T :=
  fun tokens htokens => (hm tokens htokens).bind hf

theorem mono {m : TokenReader α} (hm : Gives m P) (h : ∀ a, P a → Q a) : Gives m Q :=
  fun tokens htokens => (hm tokens htokens).mono h

theorem ite {c : Prop} [Decidable c] {m n : TokenReader α} (hm : c → Gives m P) (hn : ¬c → Gives n P) :
    Gives (if c then m else n) P :=
  fun tokens htokens => .ite (fun hc => hm hc tokens htokens) fun hc => hn hc tokens htokens

theorem failAt (t : Token) (issue : ProgramIssue) : Gives (TokenReader.failAt t issue) P :=
  fun _ _ => .error trivial

end Gives

/-- A reader that goes on after one whose value does not matter. -/
theorem gives_after {m : TokenReader α} [hm : OnlyDrops m] {f : α → TokenReader β} {P : β → Prop}
    (hf : ∀ a, Gives (f a) P) : Gives (m >>= f) P :=
  hm.gives.bind fun a _ => hf a

theorem GivesOn.after {tokens : List Token} (htokens : AllLexed tokens) {m : TokenReader α} [OnlyDrops m]
    {f : α → TokenReader β} {P : β → Prop} (hf : ∀ a, Gives (f a) P) : GivesOn tokens (m >>= f) P :=
  gives_after hf tokens htokens

theorem Gives.failHere {P : α → Prop} (issue : Token → ProgramIssue) : Gives (TokenReader.failHere issue) P :=
  fun tokens htokens => .peeked 0 (Gives.failAt _ _ tokens htokens)

/-! ## Readers of single tokens -/

theorem isLexed_tokenAt {tokens : List Token} (h : AllLexed tokens) (offset : Nat) :
    (tokenAt tokens offset).IsLexed := by
  rw [tokenAt]
  rcases htoken : tokens[offset]? with _ | t
  · rw [Option.getD_none, List.getLastD_eq_getLast?]
    rcases hlast : tokens.getLast? with _ | t
    · trivial
    · exact h t (List.mem_of_getLast? hlast)
  · exact h t (List.mem_of_getElem? htoken)

theorem gives_peek (offset : Nat) : Gives (peek offset) Token.IsLexed :=
  fun _ htokens => .ok ⟨isLexed_tokenAt htokens offset, htokens⟩

theorem gives_modify {f : List Token → List Token} (hf : ∀ tokens, f tokens ⊆ tokens) :
    Gives (modify f) fun _ => True :=
  fun tokens htokens => .ok ⟨trivial, fun t ht => htokens t (hf tokens ht)⟩

instance {a : α} : OnlyDrops (pure a) := ⟨.pure trivial⟩

instance {m : TokenReader α} {f : α → TokenReader β} [hm : OnlyDrops m] [hf : ∀ a, OnlyDrops (f a)] :
    OnlyDrops (m >>= f) :=
  ⟨hm.gives.bind fun a _ => (hf a).gives⟩

instance {c : Prop} [Decidable c] {m n : TokenReader α} [hm : OnlyDrops m] [hn : OnlyDrops n] :
    OnlyDrops (if c then m else n) :=
  ⟨.ite (fun _ => hm.gives) fun _ => hn.gives⟩

instance : OnlyDrops get :=
  ⟨fun _ htokens => .ok ⟨trivial, htokens⟩⟩

instance (offset : Nat) : OnlyDrops (peek offset) :=
  ⟨(gives_peek offset).mono fun _ _ => trivial⟩

instance (count : Nat) : OnlyDrops (modify (·.drop count)) :=
  ⟨gives_modify fun tokens => List.drop_subset count tokens⟩

instance (count : Nat) : OnlyDrops (skip count) := by
  unfold skip
  infer_instance

instance (p : Token → Bool) : OnlyDrops (modify (·.dropWhile p)) :=
  ⟨gives_modify fun _ => List.dropWhile_subset p⟩

instance (t : Token) (issue : ProgramIssue) : OnlyDrops (failAt t issue : TokenReader α) :=
  ⟨.failAt t issue⟩

instance (issue : Token → ProgramIssue) : OnlyDrops (failHere issue : TokenReader α) :=
  ⟨.failHere issue⟩

instance (marks : List String) : OnlyDrops (atMark marks) := by
  unfold atMark
  infer_instance

instance (word : String) : OnlyDrops (atWord word) := by
  unfold atWord
  infer_instance

instance (mark : String) : OnlyDrops (expectMark mark) := by
  unfold expectMark
  infer_instance

instance (word : String) : OnlyDrops (expectWord word) := by
  unfold expectWord
  infer_instance

instance : OnlyDrops expectName := by
  unfold expectName
  infer_instance

instance : OnlyDrops atTwiddle := by
  unfold atTwiddle
  infer_instance

theorem gives_advance {tokens : List Token} (h : AllLexed tokens) :
    GivesOn tokens advance (· = tokenAt tokens 0) := by
  rw [advance]
  refine GivesOn.bind (P := (· = tokenAt tokens 0)) (.ok ⟨rfl, h⟩) fun t ht => ?_
  split
  · exact gives_after fun _ => .pure ht
  · exact .pure ht

instance : OnlyDrops advance :=
  ⟨fun _ htokens => (gives_advance htokens).mono fun _ _ => trivial⟩

/-! ## Parts -/

/-- The token is a name or a label that may be a unit. -/
def IsUnitName (t : Token) : Prop :=
  ∃ n : WrittenName, n.text = t.text ∧ n.text ≠ "per"

theorem exists_name {t : Token} (ht : t.IsLexed) (h : t.kind = .label ∨ t.kind = .name) :
    ∃ n : WrittenName, n.text = t.text := by
  rcases h with h | h
  · rw [Token.IsLexed, h] at ht
    exact ⟨⟨t.text, ht.1⟩, rfl⟩
  · rw [Token.IsLexed, h] at ht
    exact ⟨⟨t.text, ht⟩, rfl⟩

theorem exists_number {t : Token} (ht : t.IsLexed) (h : t.kind = .number) :
    ∃ k : WrittenNumber, k.text = t.text := by
  rw [Token.IsLexed, h] at ht
  exact ⟨⟨t.text, ht⟩, rfl⟩

theorem isUnitName_of_isUnit {t : Token} (ht : t.IsLexed) (h : isUnit t = true) : IsUnitName t := by
  obtain ⟨n, hn⟩ := exists_name ht (kind_of_isUnit h)
  refine ⟨n, hn, fun hper => ?_⟩
  rcases kind_of_isUnit h with hkind | hkind
  · -- a label has a tick
    rw [Token.IsLexed, hkind, ← hn, hper] at ht
    exact absurd ht.2 (by decide)
  · have hword := not_isWord_per h
    rw [isWord, hkind, ← hn, hper] at hword
    exact absurd hword (by decide)

theorem isUnitName_of_isUnitWord {t next : Token} (ht : t.IsLexed) (h : isUnitWord t next = true) :
    IsUnitName t := by
  rw [isUnitWord, Bool.or_eq_true, Bool.and_eq_true, Bool.and_eq_true] at h
  rcases h with h | ⟨⟨hfree, hword⟩, -⟩
  · exact isUnitName_of_isUnit ht h
  · obtain ⟨n, hn⟩ := exists_name ht (.inr (kind_of_isFreeName hfree))
    refine ⟨n, hn, fun hper => ?_⟩
    rw [← hn, hper] at hword
    exact absurd hword (by decide)

/-! ## Units -/

/-- The text of a unit as programs write it. -/
def IsUnitText (text : String) : Prop :=
  ∃ parts, UnitPart.IsUnit parts ∧ UnitPart.textOf parts = text

/-- Words, the last one first, that are parts of a unit. -/
def AreUnit (words : List String) : Prop :=
  ∃ parts, UnitPart.IsUnit parts ∧ words = (parts.map (·.text)).reverse

theorem AreUnit.raised {words : List String} (h : AreUnit words) (p : WrittenPower) :
    AreUnit (raiseLast words p.text) := by
  obtain ⟨parts, hparts, rfl⟩ := h
  obtain ⟨front, n, powers, rfl⟩ := hparts.exists_last
  refine ⟨_, hparts.raised p, ?_⟩
  simp [raiseLast, UnitPart.text]

theorem AreUnit.beside {words : List String} (h : AreUnit words) {t : Token} (ht : IsUnitName t) :
    AreUnit (t.text :: words) := by
  obtain ⟨parts, hparts, rfl⟩ := h
  obtain ⟨n, hn, hper⟩ := ht
  refine ⟨_, hparts.beside hper, ?_⟩
  simp [UnitPart.text, hn]

theorem AreUnit.divided {words : List String} (h : AreUnit words) {t : Token} (ht : IsUnitName t) :
    AreUnit (t.text :: "/" :: words) := by
  obtain ⟨parts, hparts, rfl⟩ := h
  obtain ⟨n, hn, hper⟩ := ht
  refine ⟨_, hparts.divided hper, ?_⟩
  simp [UnitPart.text, UnitPart.slash, hn]

theorem gives_unitWords (limit : Nat) {words : List String} (h : AreUnit words) :
    Gives (unitWords limit words) AreUnit := by
  induction limit generalizing words with
  | zero =>
    rw [unitWords]
    exact .pure h
  | succ limit ih =>
    rw [unitWords]
    refine (gives_peek 0).bind fun t ht => (gives_peek 1).bind fun next hnext => ?_
    refine .ite (fun _ => .ite (fun hnumber => ?_) fun _ => ?_) fun _ => ?_
    · obtain ⟨k, hk⟩ := exists_number hnext (beq_iff_eq.mp hnumber)
      exact gives_after fun _ => ih (hk ▸ h.raised ⟨false, k⟩)
    · refine (gives_peek 2).bind fun third hthird => .ite (fun hminus => ?_) fun _ => .pure h
      obtain ⟨k, hk⟩ := exists_number hthird (beq_iff_eq.mp (Bool.and_eq_true_iff.mp hminus).2)
      exact gives_after fun _ => ih (hk ▸ h.raised ⟨true, k⟩)
    · refine .ite (fun hover => ?_) fun _ => .ite (fun hunit => ?_) fun _ => .pure h
      · have hname := isUnitName_of_isUnit hnext (Bool.and_eq_true_iff.mp hover).2
        exact gives_after fun _ => ih (h.divided hname)
      · exact gives_after fun _ => ih (h.beside (isUnitName_of_isUnit ht hunit))

/-- A text that starts with the name of a unit is that of a unit. -/
theorem gives_unitText {tokens : List Token} (htokens : AllLexed tokens)
    (h : IsUnitName (tokenAt tokens 0)) : GivesOn tokens unitText IsUnitText := by
  obtain ⟨n, hn, hper⟩ := h
  rw [unitText]
  refine (gives_advance htokens).bind fun first hfirst => gives_after fun rest => ?_
  have hwords : AreUnit [first.text] := ⟨_, .first hper, by simp [UnitPart.text, hn, hfirst]⟩
  refine (gives_unitWords _ hwords).bind fun words hwords => .pure ?_
  obtain ⟨parts, hparts, rfl⟩ := hwords
  exact ⟨parts, hparts, by rw [List.reverse_reverse, UnitPart.textOf]⟩

theorem gives_trailingUnit : Gives trailingUnit fun unit => ∀ text, unit = some text → IsUnitText text := by
  intro tokens htokens
  refine .peeked 0 (.peeked 1 (.ite (fun hunit => ?_) fun _ => ?_))
  · have hname := isUnitName_of_isUnitWord (isLexed_tokenAt htokens 0) hunit
    refine (gives_unitText htokens hname).bind fun unit hunit => .pure ?_
    exact fun text htext => Option.some.inj htext ▸ hunit
  · exact Gives.pure (fun _ htext => nomatch htext) tokens htokens

/-! ## Targets -/

/-- The text of a target as programs write it. -/
def IsTargetText (text : String) : Prop :=
  ∃ parts, parts ≠ [] ∧ UnitPart.textOf parts = text

/-- Words, the last one first, that are parts. -/
def AreParts (words : List String) : Prop :=
  ∃ parts : List UnitPart, words = (parts.map (·.text)).reverse

theorem AreParts.cons {words : List String} (h : AreParts words) {t : Token}
    (ht : ∃ part : UnitPart, part.text = t.text) : AreParts (t.text :: words) := by
  obtain ⟨parts, rfl⟩ := h
  obtain ⟨part, hpart⟩ := ht
  exact ⟨parts ++ [part], by simp [hpart]⟩

theorem exists_part_of_isMark {t : Token} {marks : List String} (h : isMark marks t = true)
    (hmarks : marks ⊆ ["/", "*", "^", "**", "-", "(", ")"]) : ∃ part : UnitPart, part.text = t.text := by
  rw [isMark, Bool.and_eq_true, List.contains_iff_mem] at h
  exact ⟨.mark t.text (hmarks h.2), rfl⟩

theorem exists_part_of_name {t : Token} (ht : t.IsLexed) (h : t.kind = .label ∨ t.kind = .name) :
    ∃ part : UnitPart, part.text = t.text := by
  obtain ⟨n, hn⟩ := exists_name ht h
  exact ⟨.name n [], hn⟩

theorem gives_targetWords (limit : Nat) {words : List String} (h : AreParts words) (depth : Nat) :
    Gives (targetWords limit words depth) AreParts := by
  induction limit generalizing words depth with
  | zero =>
    rw [targetWords]
    exact .pure h
  | succ limit ih =>
    rw [targetWords]
    refine (gives_peek 0).bind fun t ht => .ite (fun htaken => ?_) fun _ => ?_
    · refine gives_after fun _ => ih (h.cons ?_) depth
      simp only [Bool.or_eq_true, Bool.and_eq_true, beq_iff_eq] at htaken
      rcases htaken with (((hname | hlabel) | hnumber) | hmark) | hminus
      · exact exists_part_of_name ht (.inr (kind_of_isFreeName hname))
      · exact exists_part_of_name ht (.inl hlabel)
      · obtain ⟨k, hk⟩ := exists_number ht hnumber.1
        exact ⟨.number k, hk⟩
      · exact exists_part_of_isMark hmark (by decide)
      · exact exists_part_of_isMark hminus.1 (by decide)
    · refine .ite (fun hopening => ?_) fun _ => .ite (fun hclosing => ?_) fun _ => .pure h
      · exact gives_after fun _ => ih (h.cons (exists_part_of_isMark hopening (by decide))) _
      · have hmark := (Bool.and_eq_true_iff.mp hclosing).1
        exact gives_after fun _ => ih (h.cons (exists_part_of_isMark hmark (by decide))) _

theorem gives_conversionTarget : Gives conversionTarget IsTargetText := by
  rw [conversionTarget]
  refine gives_after fun base => .ite (fun _ => ?_) fun _ => ?_
  · have hbase : Piece.IsWord "SI".toList := .name (by decide) (List.all_eq_true.mp (by decide))
    exact gives_after fun _ => .pure ⟨[.name ⟨"SI", hbase⟩ []], List.cons_ne_nil _ _, rfl⟩
  · refine gives_after fun tokens => ?_
    refine (gives_targetWords _ ⟨[], rfl⟩ 0).bind fun words hwords => .ite (fun _ => ?_) fun hsome => ?_
    · exact .failHere _
    · obtain ⟨parts, rfl⟩ := hwords
      refine .pure ⟨parts, ?_, by rw [List.reverse_reverse, UnitPart.textOf]⟩
      rintro rfl
      exact hsome rfl

end Ballpark.TokenReader
