import SystemDynamics.Json.Reader

namespace SystemDynamics.Json

structure Field (α : Type) where
  name : String
  isRequired : Bool
  ofText : Text → α → Except Failure (α × Text)
  ofValue : Value → α → Except Failure α

variable {α β : Type}

def Field.of (name : String) (r : Reader β) (put : β → α → α) : Field α where
  name
  isRequired := false
  ofText t a := (r.ofText t).map fun (b, rest) ↦ (put b a, rest)
  ofValue v a := (r.ofValue v).map (put · a)

def Field.required (f : Field α) : Field α :=
  { f with isRequired := true }

structure Record (α : Type) where
  name : String
  fields : List (Field α)
  /-- Whether a field of another name is refused; otherwise it is passed over. -/
  isClosed : Bool
  blank : α

namespace Record

variable (r : Record α)

def field? (name : String) : Option (Field α) :=
  r.fields.find? (·.name == name)

def unknown (name : String) : Except Failure β :=
  refuse (.unknownField name (r.fields.map (·.name)))

def complete (seen : List String) (a : α) : Except Failure α :=
  match r.fields.find? fun f ↦ f.isRequired && !seen.contains f.name with
  | some f => refuse (.missingField f.name)
  | none => .ok a

def lengthText : String :=
  let count := r.fields.length
  "struct " ++ r.name ++ " with " ++ toString count ++
    (if count = 1 then " element" else " elements")

/-- The list ends before these fields, the first of which has so many before it. -/
def leftOut (a : α) : Nat → List (Field α) → Except Failure α
  | _, [] => .ok a
  | read, f :: fs =>
    if f.isRequired then refuse (.wrongLength read r.lengthText) else leftOut a (read + 1) fs

def fieldsOfText :
    (fuel : Nat) → (isFirst : Bool) → List String → α → Text → Except Failure (α × Text)
  | 0, _, _, _, _ => .error .malformed
  | fuel + 1, isFirst, seen, a, t => do
    match ← Reader.nextName isFirst t with
    | none => return (← r.complete seen a, ← Reader.closeObject t)
    | some (name, rest) =>
      match r.field? name with
      | some f =>
        if seen.contains name then refuse (.duplicateField name)
        else
          let (a, rest) ← f.ofText (← Reader.skipColon rest) a
          fieldsOfText fuel false (name :: seen) a rest
      | none =>
        if r.isClosed then r.unknown name
        else
          let rest ← Reader.skipColon rest
          fieldsOfText fuel false seen a (← wellFormed (skipValue (rest.length + 1) [] rest))

/-- Reads the fields in order, `read` of them being read already. -/
def itemsOfText : (read : Nat) → List (Field α) → α → Text → Except Failure (α × Text)
  | _, [], a, t => return (a, ← Reader.closeList t)
  | read, f :: fs, a, t => do
    match ← Reader.nextItem (read == 0) t with
    | some t =>
      let (a, rest) ← f.ofText t a
      itemsOfText (read + 1) fs a rest
    | none => return (← r.leftOut a read (f :: fs), ← Reader.closeList t)

def fieldsOfValue : List String → α → List (String × Value) → Except Failure α
  | seen, a, [] => r.complete seen a
  | seen, a, (name, v) :: rest =>
    match r.field? name with
    | some f =>
      if seen.contains name then refuse (.duplicateField name)
      else do fieldsOfValue (name :: seen) (← f.ofValue v a) rest
    | none => if r.isClosed then r.unknown name else fieldsOfValue seen a rest

def itemsOfValue (length : Nat) : List (Field α) → α → List Value → Except Failure α
  | [], a, [] => .ok a
  | [], _, _ :: _ => refuse (.wrongLength length "fewer elements in array")
  | fs, a, [] => r.leftOut a length fs
  | f :: fs, a, v :: vs => do itemsOfValue length fs (← f.ofValue v a) vs

def reader : Reader α where
  ofText t :=
    match skipBlank t with
    | '{' :: rest => r.fieldsOfText (rest.length + 1) true [] r.blank rest
    | '[' :: rest => r.itemsOfText 0 r.fields r.blank rest
    | t => refuseFound ("struct " ++ r.name) t
  ofValue
    | .object fields => r.fieldsOfValue [] r.blank fields
    | .list vs => r.itemsOfValue vs.length r.fields r.blank vs
    | v => refuse (.wrongType v.found ("struct " ++ r.name))

end Record

def Reader.read (r : Reader α) (text : String) : Except Failure α := do
  let (a, rest) ← r.ofText text.toList
  if (skipBlank rest).isEmpty then return a else .error .malformed

end SystemDynamics.Json
