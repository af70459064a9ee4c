namespace SystemDynamics

structure NameMap (α : Type) where
  entries : List (String × α)
  deriving DecidableEq

namespace NameMap

variable {α β : Type}

def empty : NameMap α := ⟨[]⟩

def insertSorted (name : String) (value : α) : List (String × α) → List (String × α)
  | [] => [(name, value)]
  | e :: rest =>
    if name < e.1 then (name, value) :: e :: rest
    else if name = e.1 then (name, value) :: rest
    else e :: insertSorted name value rest

/-- A value that the name had before is replaced. -/
def insert (m : NameMap α) (name : String) (value : α) : NameMap α :=
  ⟨insertSorted name value m.entries⟩

/-- The last value of a name counts. -/
def ofList (pairs : List (String × α)) : NameMap α :=
  pairs.foldl (fun m p ↦ m.insert p.1 p.2) empty

def find? (m : NameMap α) (name : String) : Option α :=
  m.entries.lookup name

def names (m : NameMap α) : List String :=
  m.entries.map (·.1)

def values (m : NameMap α) : List α :=
  m.entries.map (·.2)

def map (f : α → β) (m : NameMap α) : NameMap β :=
  ⟨m.entries.map fun e ↦ (e.1, f e.2)⟩

def distinct (names : List String) : List String :=
  (ofList (names.map fun name ↦ (name, ()))).names

end NameMap

end SystemDynamics
