/-!
# Bindings

Values under names, kept in the order in which the names were first bound. Binding a name again
replaces its value and keeps its place.
-/

namespace Ballpark

/-- Values under names. -/
structure Bindings (V : Type) where
  entries : List (String × V)

namespace Bindings

variable {V : Type}

/-- No names. -/
def empty : Bindings V :=
  ⟨[]⟩

/-- The entries with a name bound. -/
def setEntries (name : String) (value : V) : List (String × V) → List (String × V)
  | [] => [(name, value)]
  | (other, old) :: rest =>
    if other = name then (name, value) :: rest else (other, old) :: setEntries name value rest

/-- Binds a name. -/
def set (b : Bindings V) (name : String) (value : V) : Bindings V :=
  ⟨setEntries name value b.entries⟩

/-- The value under a name. -/
def get? (b : Bindings V) (name : String) : Option V :=
  b.entries.lookup name

/-- Is there a value under this name? -/
def contains (b : Bindings V) (name : String) : Bool :=
  (b.get? name).isSome

/-- The names in order. -/
def names (b : Bindings V) : List String :=
  b.entries.map (·.1)

/-- The values of names; of two values for one name the last holds. -/
def ofList (entries : List (String × V)) : Bindings V :=
  entries.foldl (fun b e => b.set e.1 e.2) empty

end Bindings

end Ballpark
