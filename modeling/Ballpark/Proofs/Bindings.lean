import Ballpark.Bindings
import Mathlib.Data.List.Forall2

/-!
# Facts about bindings

Setting a name changes the value under that name and no other. Two bindings of the same names whose
values are related (`Bindings.Related`) stay so when related values are set, and they are told apart by
no look-up: the same names have values, and these are related.
-/

namespace Ballpark.Bindings

variable {V W : Type}

theorem lookup_cons (key : String) (x : V) (entries : List (String × V)) (name : String) :
    ((key, x) :: entries).lookup name = if name = key then some x else entries.lookup name := by
  rw [List.lookup_cons]
  by_cases h : name = key
  · simp [h]
  · rw [if_neg h, beq_eq_false_iff_ne.mpr h]

theorem lookup_setEntries (name : String) (value : V) (entries : List (String × V)) (other : String) :
    (setEntries name value entries).lookup other =
      if other = name then some value else entries.lookup other := by
  induction entries with
  | nil => exact lookup_cons name value [] other
  | cons e rest ih =>
    obtain ⟨key, old⟩ := e
    by_cases hkey : key = name
    · subst hkey
      rw [setEntries, if_pos rfl, lookup_cons, lookup_cons]
      by_cases h : other = key
      · simp [h]
      · simp [h]
    · rw [setEntries, if_neg hkey, lookup_cons, lookup_cons, ih]
      by_cases h : other = key
      · simp [h, hkey]
      · simp [h]

/-- Setting a name that is bound changes its entry in place. -/
theorem setEntries_of_mem {entries : List (String × V)} (hnames : (entries.map (·.1)).Nodup) {name : String}
    (hmem : name ∈ entries.map (·.1)) (value : V) :
    setEntries name value entries = entries.map fun e => if e.1 = name then (name, value) else e := by
  induction entries with
  | nil => cases hmem
  | cons e rest ih =>
    obtain ⟨key, old⟩ := e
    obtain ⟨hkey, hrest⟩ := List.nodup_cons.mp hnames
    by_cases heq : key = name
    · subst heq
      have hkeep : (rest.map fun e => if e.1 = key then (key, value) else e) = rest :=
        (List.map_congr_left fun e he =>
          if_neg fun h => hkey (List.mem_map.mpr ⟨e, he, h⟩)).trans (List.map_id _)
      rw [setEntries, if_pos rfl, List.map_cons, if_pos rfl, hkeep]
    · have htail : name ∈ rest.map (·.1) := (List.mem_cons.mp hmem).resolve_left (Ne.symm heq)
      rw [setEntries, if_neg heq, List.map_cons, if_neg heq, ih hrest htail]

/-- The entries of other names. -/
def others (name : String) (entries : List (String × V)) : List (String × V) :=
  entries.filter (·.1 ≠ name)

/-- An entry may be moved to the front. -/
theorem perm_others {entries : List (String × V)} (hnames : (entries.map (·.1)).Nodup)
    {e : String × V} (hmem : e ∈ entries) : entries.Perm (e :: others e.1 entries) := by
  induction entries with
  | nil => cases hmem
  | cons f rest ih =>
    obtain ⟨hkey, hrest⟩ := List.nodup_cons.mp hnames
    rcases List.mem_cons.mp hmem with rfl | htail
    · have hall : others e.1 (e :: rest) = rest := by
        rw [others, List.filter_cons_of_neg (by simp)]
        exact List.filter_eq_self.mpr fun f hf => by
          simpa using fun h => hkey (List.mem_map.mpr ⟨f, hf, h⟩)
      rw [hall]
    · have hne : f.1 ≠ e.1 := fun h => hkey (List.mem_map.mpr ⟨e, htail, h.symm⟩)
      have hkeep : others e.1 (f :: rest) = f :: others e.1 rest :=
        List.filter_cons_of_pos (by simpa using hne)
      rw [hkeep]
      exact ((ih hrest htail).cons f).trans (.swap e f _)

/-- The entry that gets a new value may be moved to the front. -/
theorem perm_setEntries {entries : List (String × V)} (hnames : (entries.map (·.1)).Nodup)
    {e : String × V} (hmem : e ∈ entries) (value : V) :
    (setEntries e.1 value entries).Perm ((e.1, value) :: others e.1 entries) := by
  have hkeep : (others e.1 entries).map (fun f => if f.1 = e.1 then (e.1, value) else f) = others e.1 entries :=
    (List.map_congr_left fun f hf => if_neg (by simpa using (List.mem_filter.mp hf).2)).trans (List.map_id _)
  rw [setEntries_of_mem hnames (List.mem_map_of_mem hmem)]
  refine ((perm_others hnames hmem).map _).trans ?_
  rw [List.map_cons, if_pos rfl, hkeep]

theorem get?_set (b : Bindings V) (name : String) (value : V) (other : String) :
    (b.set name value).get? other = if other = name then some value else b.get? other :=
  lookup_setEntries name value b.entries other

/-- What stays in bindings when a name is set is bound as before. -/
theorem isSome_get?_set {b : Bindings V} {other : String} (h : (b.get? other).isSome = true)
    (name : String) (value : V) : ((b.set name value).get? other).isSome = true := by
  rw [get?_set]
  split
  · rfl
  · exact h

theorem isSome_foldl_set {entries : List (String × V)} {b : Bindings V} {name : String}
    (h : (b.get? name).isSome = true ∨ name ∈ entries.map (·.1)) :
    ((entries.foldl (fun b e => b.set e.1 e.2) b).get? name).isSome = true := by
  induction entries generalizing b with
  | nil => exact h.resolve_right List.not_mem_nil
  | cons e rest ih =>
    refine ih ?_
    rcases h with h | h
    · exact .inl (isSome_get?_set h _ _)
    rcases List.mem_cons.mp h with rfl | h
    · exact .inl (by rw [get?_set, if_pos rfl]; rfl)
    · exact .inr h

/-- Every name of a list has a value in the bindings made from it. -/
theorem isSome_get?_ofList {entries : List (String × V)} {name : String}
    (h : name ∈ entries.map (·.1)) : ((ofList entries).get? name).isSome = true :=
  isSome_foldl_set (.inr h)

/-- Names that no list binds keep their values. -/
theorem get?_foldl_set_of_not_mem {entries : List (String × V)} {b : Bindings V} {name : String}
    (h : name ∉ entries.map (·.1)) :
    (entries.foldl (fun b e => b.set e.1 e.2) b).get? name = b.get? name := by
  induction entries generalizing b with
  | nil => rfl
  | cons e rest ih =>
    rw [List.map_cons, List.mem_cons, not_or] at h
    rw [List.foldl_cons, ih h.2, get?_set, if_neg h.1]

/-- Lists that bind the same names, and one of them to the same values, agree on that name. -/
theorem get?_foldl_set_congr {entries entries' : List (String × V)} {b b' : Bindings V} {name : String}
    (h : List.Forall₂ (fun e e' => e.1 = e'.1 ∧ (e.1 = name → e.2 = e'.2)) entries entries')
    (hb : b.get? name = b'.get? name) :
    (entries.foldl (fun b e => b.set e.1 e.2) b).get? name =
      (entries'.foldl (fun b e => b.set e.1 e.2) b').get? name := by
  induction h generalizing b b' with
  | nil => exact hb
  | @cons e e' rest rest' he _ ih =>
    refine ih ?_
    rw [get?_set, get?_set, ← he.1, hb]
    split
    · rename_i hname
      rw [he.2 hname.symm]
    · rfl

/-! ## All values -/

/-- Every value has a property. -/
def All (P : V → Prop) (b : Bindings V) : Prop :=
  ∀ name x, b.get? name = some x → P x

namespace All

variable {P : V → Prop} {b : Bindings V}

theorem empty : All P (Bindings.empty : Bindings V) :=
  fun _ _ h => nomatch h

theorem set (h : b.All P) (name : String) {x : V} (hx : P x) : (b.set name x).All P := by
  intro other y hy
  rw [get?_set] at hy
  split at hy
  · exact Option.some.inj hy ▸ hx
  · exact h other y hy

theorem foldl_set {entries : List (String × V)} (hentries : ∀ e ∈ entries, P e.2) (h : b.All P) :
    (entries.foldl (fun b e => b.set e.1 e.2) b).All P := by
  induction entries generalizing b with
  | nil => exact h
  | cons e rest ih =>
    exact ih (fun f hf => hentries f (List.mem_cons_of_mem _ hf))
      (h.set e.1 (hentries e List.mem_cons_self))

theorem ofList {entries : List (String × V)} (h : ∀ e ∈ entries, P e.2) :
    (Bindings.ofList entries).All P :=
  foldl_set h empty

end All

/-- The values under all names changed by a function. -/
def map (f : V → W) (b : Bindings V) : Bindings W :=
  ⟨b.entries.map fun e => (e.1, f e.2)⟩

theorem get?_map (f : V → W) (b : Bindings V) (name : String) :
    (b.map f).get? name = (b.get? name).map f := by
  obtain ⟨entries⟩ := b
  induction entries with
  | nil => rfl
  | cons e rest ih =>
    obtain ⟨key, x⟩ := e
    simp only [get?, map, List.map_cons, lookup_cons] at ih ⊢
    by_cases h : name = key
    · simp [h]
    · rw [if_neg h, if_neg h, ih]

/-! ## Related values -/

/-- The same names in the same order, with related values. -/
def Related (rel : V → W → Prop) (b : Bindings V) (c : Bindings W) : Prop :=
  List.Forall₂ (fun e f => e.1 = f.1 ∧ rel e.2 f.2) b.entries c.entries

namespace Related

variable {rel : V → W → Prop} {b : Bindings V} {c : Bindings W}

theorem empty : Related rel Bindings.empty Bindings.empty :=
  .nil

theorem setEntries {es : List (String × V)} {fs : List (String × W)}
    (h : List.Forall₂ (fun e f => e.1 = f.1 ∧ rel e.2 f.2) es fs) (name : String) {x : V} {y : W}
    (hxy : rel x y) :
    List.Forall₂ (fun e f => e.1 = f.1 ∧ rel e.2 f.2) (Bindings.setEntries name x es)
      (Bindings.setEntries name y fs) := by
  induction h with
  | nil => exact .cons ⟨rfl, hxy⟩ .nil
  | @cons e f es fs hef hrest ih =>
    obtain ⟨key, old⟩ := e
    obtain ⟨key', old'⟩ := f
    obtain ⟨hkey, hold⟩ := hef
    simp only at hkey hold
    subst hkey
    by_cases hname : key = name
    · rw [Bindings.setEntries, Bindings.setEntries, if_pos hname, if_pos hname]
      exact .cons ⟨rfl, hxy⟩ hrest
    · rw [Bindings.setEntries, Bindings.setEntries, if_neg hname, if_neg hname]
      exact .cons ⟨rfl, hold⟩ ih

theorem set (h : Related rel b c) (name : String) {x : V} {y : W} (hxy : rel x y) :
    Related rel (b.set name x) (c.set name y) :=
  setEntries h name hxy

theorem foldl_set {names : List String} {xs : List V} {ys : List W} (h : Related rel b c)
    (hxy : List.Forall₂ rel xs ys) :
    Related rel ((names.zip xs).foldl (fun b e => b.set e.1 e.2) b)
      ((names.zip ys).foldl (fun b e => b.set e.1 e.2) c) := by
  induction hxy generalizing names b c with
  | nil => simpa using h
  | cons hx _ ih =>
    rcases names with _ | ⟨name, names⟩
    · exact h
    · exact ih (h.set name hx)

/-- Names bound to related values one by one. -/
theorem ofList_zip (names : List String) {xs : List V} {ys : List W} (hxy : List.Forall₂ rel xs ys) :
    Related rel (ofList (names.zip xs)) (ofList (names.zip ys)) :=
  foldl_set empty hxy

/-- A look-up finds related values or none on both sides. -/
theorem get? (h : Related rel b c) (name : String) :
    (b.get? name = none ∧ c.get? name = none) ∨
      ∃ x y, b.get? name = some x ∧ c.get? name = some y ∧ rel x y := by
  obtain ⟨es⟩ := b
  obtain ⟨fs⟩ := c
  simp only [Related] at h
  simp only [Bindings.get?]
  induction h with
  | nil => exact .inl ⟨rfl, rfl⟩
  | @cons e f es fs hef _ ih =>
    obtain ⟨key, x⟩ := e
    obtain ⟨key', y⟩ := f
    obtain ⟨hkey, hxy⟩ := hef
    simp only at hkey hxy
    subst hkey
    rw [lookup_cons, lookup_cons]
    by_cases hname : name = key
    · rw [if_pos hname, if_pos hname]
      exact .inr ⟨x, y, rfl, rfl, hxy⟩
    · rw [if_neg hname, if_neg hname]
      exact ih

end Related

end Ballpark.Bindings
