import Ballpark.Proofs.UnitSyntax

/-!
# Units without parentheses

Where no parenthesis is opened the syntax of units needs no recursion: from left to right, a token is
allowed or not by the place behind the one before it (`UnitToken.RunPlace`). So one walk through the tokens
decides whether they are a sentence (`UnitToken.isSentence_iff_isRun`). What it comes to is that factors
follow one another, with signs between them or without, and that each of them is raised at most once.
-/

namespace Ballpark.UnitToken

/-- The places in a unit without parentheses. -/
inductive RunPlace where
  /-- where a factor must follow -/
  | expecting
  /-- behind a name or a number, which may be raised -/
  | base
  /-- behind the sign of a power -/
  | raising
  /-- behind the minus of an exponent -/
  | lowering
  /-- behind an exponent -/
  | raised
  deriving DecidableEq

namespace RunPlace

/-- May a unit end here? -/
def isEnd : RunPlace → Bool
  | base | raised => true
  | _ => false

/-- The place behind a mark between factors. -/
def between? (mark : String) : Option RunPlace :=
  if mark ∈ ["*", "·", "/"] then some expecting else none

/-- The place behind a token, if the token is allowed. -/
def next? : RunPlace → UnitToken → Option RunPlace
  | expecting, .name _ | expecting, .number _ | base, .name _ | base, .number _ | raised, .name _
  | raised, .number _ => some base
  | base, .mark m => if m ∈ ["^", "**"] then some raising else between? m
  | raised, .mark m => between? m
  | raising, .number _ | lowering, .number _ => some raised
  | raising, .mark m => if m = "-" then some lowering else none
  | _, _ => none

end RunPlace

/-- Do tokens go on from a place to the end of a unit? -/
def isRun : RunPlace → List UnitToken → Bool
  | place, [] => place.isEnd
  | place, token :: rest =>
    match place.next? token with
    | some next => isRun next rest
    | none => false

theorem isRun_cons {place next : RunPlace} {token : UnitToken} (h : place.next? token = some next)
    (rest : List UnitToken) : isRun place (token :: rest) = isRun next rest := by
  rw [isRun, h]

/-! ## Runs are sentences -/

/-- A quotient that may go on with factors below the last slash. -/
inductive Ongoing : List UnitToken → Prop
  | product {tokens : List UnitToken} (h : IsSentence .product tokens) : Ongoing tokens
  | divided {above below : List UnitToken} (habove : IsSentence .quotient above)
      (hbelow : IsSentence .product below) : Ongoing (above ++ .mark "/" :: below)

/-- Tokens that any factor makes an ongoing quotient. -/
def Awaits (done : List UnitToken) : Prop :=
  ∀ factor, IsSentence .power factor → Ongoing (done ++ factor)

theorem awaits_nil : Awaits [] :=
  fun _ h => .product (.power h)

namespace Ongoing

variable {done : List UnitToken} (h : Ongoing done)
include h

theorem isSentence : IsSentence .quotient done := by
  cases h with
  | product h => exact .product h
  | divided habove hbelow => exact .divided habove hbelow

theorem awaits : Awaits done := by
  intro factor hfactor
  cases h with
  | product h => exact .product (.beside h hfactor)
  | divided habove hbelow =>
    rw [List.append_assoc, List.cons_append]
    exact .divided habove (.beside hbelow hfactor)

/-- Between factors a sign may stand. -/
theorem awaits_sign {mark : String} (hmark : mark ∈ ["*", "·", "/"]) : Awaits (done ++ [.mark mark]) := by
  intro factor hfactor
  rw [List.append_assoc, List.singleton_append]
  have hsplit : mark ∈ ["*", "·"] ∨ mark = "/" := by simpa [or_assoc] using hmark
  rcases hsplit with htimes | rfl
  · cases h with
    | product h => exact .product (.times h htimes hfactor)
    | divided habove hbelow =>
      rw [List.append_assoc, List.cons_append]
      exact .divided habove (.times hbelow htimes hfactor)
  · exact .divided h.isSentence (.power hfactor)

end Ongoing

/-- What has been read when a run stands at a place. -/
inductive ReadTo : RunPlace → List UnitToken → Prop
  | expecting {done : List UnitToken} (h : Awaits done) : ReadTo .expecting done
  | base {done : List UnitToken} {a : UnitToken} (h : Awaits done) (ha : IsSentence .atom [a]) :
      ReadTo .base (done ++ [a])
  | raising {done : List UnitToken} {a : UnitToken} {mark : String} (h : Awaits done)
      (ha : IsSentence .atom [a]) (hmark : mark ∈ ["^", "**"]) :
      ReadTo .raising (done ++ [a, .mark mark])
  | lowering {done : List UnitToken} {a : UnitToken} {mark : String} (h : Awaits done)
      (ha : IsSentence .atom [a]) (hmark : mark ∈ ["^", "**"]) :
      ReadTo .lowering (done ++ [a, .mark mark, .mark "-"])
  | raised {done : List UnitToken} (h : Ongoing done) : ReadTo .raised done

theorem ReadTo.ongoing {place : RunPlace} {done : List UnitToken} (h : ReadTo place done)
    (hend : place.isEnd = true) : Ongoing done := by
  cases h with
  | expecting | raising | lowering => cases hend
  | base h ha => exact h _ (.atom ha)
  | raised h => exact h

theorem ReadTo.sign {place next : RunPlace} {done : List UnitToken} (h : ReadTo place done)
    (hend : place.isEnd = true) {mark : String} (hnext : RunPlace.between? mark = some next) :
    ReadTo next (done ++ [.mark mark]) := by
  rw [RunPlace.between?] at hnext
  split at hnext
  · cases hnext
    exact .expecting ((h.ongoing hend).awaits_sign ‹_›)
  · cases hnext

/-- One token more. -/
theorem ReadTo.step {place next : RunPlace} {done : List UnitToken} {token : UnitToken}
    (h : ReadTo place done) (hnext : place.next? token = some next) : ReadTo next (done ++ [token]) := by
  cases h with
  | expecting h =>
    cases token with
    | name => cases hnext; exact .base h .name
    | number => cases hnext; exact .base h .number
    | mark => cases hnext
  -- behind an atom a power mark raises it, and another mark is a sign of the run
  | base h ha =>
    have hawaits := (h _ (.atom ha)).awaits
    cases token with
    | name => cases hnext; exact .base hawaits .name
    | number => cases hnext; exact .base hawaits .number
    | mark m =>
      simp only [RunPlace.next?] at hnext
      split at hnext
      · cases hnext
        rw [List.append_assoc]
        exact .raising h ha ‹_›
      · exact (ReadTo.base h ha).sign rfl hnext
  -- a power mark asks for a number, or for a minus and then a number
  | raising h ha hmark =>
    rw [List.append_assoc]
    cases token with
    | name => cases hnext
    | number => cases hnext; exact .raised (h _ (.raised ha hmark .number))
    | mark m =>
      simp only [RunPlace.next?] at hnext
      split at hnext
      · cases hnext
        subst m
        exact .lowering h ha hmark
      · cases hnext
  | lowering h ha hmark =>
    rw [List.append_assoc]
    cases token with
    | number => cases hnext; exact .raised (h _ (.raised ha hmark .negative))
    | name | mark => cases hnext
  -- what has been raised cannot be raised again
  | raised h =>
    cases token with
    | name => cases hnext; exact .base h.awaits .name
    | number => cases hnext; exact .base h.awaits .number
    | mark => exact (ReadTo.raised h).sign rfl hnext

/-- The run is over when the tokens are. -/
theorem ReadTo.isSentence {place : RunPlace} {done rest : List UnitToken} (h : ReadTo place done)
    (hrun : isRun place rest = true) : IsSentence .quotient (done ++ rest) := by
  induction rest generalizing place done with
  | nil =>
    rw [List.append_nil]
    exact (h.ongoing hrun).isSentence
  | cons token rest ih =>
    rw [isRun] at hrun
    split at hrun
    · rename_i next hnext
      have hrest := ih (h.step hnext) hrun
      rwa [List.append_assoc, List.singleton_append] at hrest
    · cases hrun

/-! ## Sentences are runs -/

/-- A unit without parentheses leads to a place where units may end, whatever follows. -/
def LeadsTo (tokens : List UnitToken) (place : RunPlace) : Prop :=
  ∀ rest, isRun .expecting (tokens ++ rest) = isRun place rest

theorem isRun_beside {place : RunPlace} (hend : place.isEnd = true) {tokens : List UnitToken}
    (h : UnitTree.Opens tokens) (hplain : ∀ token ∈ tokens, token ≠ .mark "(") (rest : List UnitToken) :
    isRun place (tokens ++ rest) = isRun .expecting (tokens ++ rest) := by
  obtain ⟨token, more, rfl, hmark⟩ := h
  cases token with
  | name | number => cases place <;> first | rfl | cases hend
  | mark m => exact absurd (congrArg UnitToken.mark (hmark m rfl)) (hplain _ List.mem_cons_self)

theorem isRun_sign {place : RunPlace} (hend : place.isEnd = true) {mark : String}
    (hmark : mark ∈ ["*", "·", "/"]) (rest : List UnitToken) :
    isRun place (.mark mark :: rest) = isRun .expecting rest := by
  refine isRun_cons ?_ rest
  simp only [List.mem_cons, List.not_mem_nil, or_false] at hmark
  rcases hmark with rfl | rfl | rfl <;> cases place <;> first | rfl | cases hend

theorem isRun_exponent {exponent : List UnitToken} (h : IsExponent exponent)
    (hplain : ∀ token ∈ exponent, token ≠ .mark "(") {mark : String} (hmark : mark ∈ ["^", "**"])
    (rest : List UnitToken) : isRun .base (.mark mark :: (exponent ++ rest)) = isRun .raised rest := by
  have hraising : RunPlace.next? .base (.mark mark) = some .raising := if_pos hmark
  rw [isRun_cons hraising]
  cases h with
  | number | negative => rfl
  | enclosed | ratio => exact absurd rfl (hplain _ List.mem_cons_self)

/-- One case for each rule: what is read first leads to the place from which the rest is read. -/
theorem IsSentence.leadsTo {level : UnitTree.Level} {tokens : List UnitToken}
    (h : IsSentence level tokens) (hplain : ∀ token ∈ tokens, token ≠ .mark "(") :
    ∃ place, place.isEnd = true ∧ (level = .atom → place = .base) ∧ LeadsTo tokens place := by
  induction h with
  | name | number => exact ⟨.base, rfl, fun _ => rfl, fun rest => rfl⟩
  -- a run has no parentheses
  | enclosed => exact absurd rfl (hplain _ List.mem_cons_self)
  | atom _ ih | power _ ih | product _ ih =>
    obtain ⟨place, hend, -, hleads⟩ := ih hplain
    exact ⟨place, hend, fun heq => (nomatch heq), hleads⟩
  | raised _ hmark hexponent ih =>
    obtain ⟨hbase, hexp⟩ := List.forall_mem_append.mp hplain
    obtain ⟨place, -, hplace, hleads⟩ := ih hbase
    -- only an atom stands in front of a power mark
    obtain rfl := hplace rfl
    refine ⟨.raised, rfl, fun heq => (nomatch heq), fun rest => ?_⟩
    rw [List.append_assoc, hleads]
    exact isRun_exponent hexponent (List.forall_mem_cons.mp hexp).2 hmark rest
  | times _ hmark _ ihleft ihright =>
    obtain ⟨hleft, hright⟩ := List.forall_mem_append.mp hplain
    obtain ⟨place, hend, -, hleads⟩ := ihleft hleft
    obtain ⟨last, hlast, -, hleads'⟩ := ihright (List.forall_mem_cons.mp hright).2
    refine ⟨last, hlast, fun heq => (nomatch heq), fun rest => ?_⟩
    have hsign := List.mem_append_left ["/"] hmark
    rw [List.append_assoc, hleads, List.cons_append, isRun_sign hend hsign, hleads']
  | beside _ hfactor ihleft ihright =>
    obtain ⟨hleft, hright⟩ := List.forall_mem_append.mp hplain
    obtain ⟨place, hend, -, hleads⟩ := ihleft hleft
    obtain ⟨last, hlast, -, hleads'⟩ := ihright hright
    refine ⟨last, hlast, fun heq => (nomatch heq), fun rest => ?_⟩
    rw [List.append_assoc, hleads, isRun_beside hend hfactor.opens hright, hleads']
  | divided _ _ ihabove ihbelow =>
    obtain ⟨habove, hbelow⟩ := List.forall_mem_append.mp hplain
    obtain ⟨place, hend, -, hleads⟩ := ihabove habove
    obtain ⟨last, hlast, -, hleads'⟩ := ihbelow (List.forall_mem_cons.mp hbelow).2
    refine ⟨last, hlast, fun heq => (nomatch heq), fun rest => ?_⟩
    rw [List.append_assoc, hleads, List.cons_append, isRun_sign hend (by decide), hleads']

/-- **Without parentheses a sentence is a run.** -/
theorem isSentence_iff_isRun {tokens : List UnitToken} (hplain : ∀ token ∈ tokens, token ≠ .mark "(") :
    IsSentence .quotient tokens ↔ isRun .expecting tokens = true := by
  constructor
  · intro h
    obtain ⟨place, hend, -, hleads⟩ := h.leadsTo hplain
    have hrun := hleads []
    rw [List.append_nil] at hrun
    exact hrun.trans hend
  · exact (ReadTo.expecting awaits_nil).isSentence

end Ballpark.UnitToken
