import SystemDynamics.Json.Failure
import SystemDynamics.NameMap

namespace SystemDynamics.Json

/-- A text is read to the end of the content, and the text after it given back. -/
structure Reader (α : Type) where
  ofText : Text → Except Failure (α × Text)
  ofValue : Value → Except Failure α

namespace Reader

variable {α : Type}

def text : Reader String where
  ofText t :=
    match skipBlank t with
    | '"' :: rest => wellFormed (readString rest)
    | t => refuseFound "a string" t
  ofValue
    | .text s => .ok s
    | v => refuse (.wrongType v.found "a string")

def startsNumber (t : Text) : Bool :=
  t.head?.any fun c ↦ c == '-' || c.isDigit

def numeric (expected : String) (take : Number → Except Failure α) : Reader α where
  ofText t :=
    let t := skipBlank t
    if startsNumber t then do
      let (n, rest) ← wellFormed (readNumber t)
      return (← take n, rest)
    else refuseFound expected t
  ofValue
    | .number n => take n
    | v => refuse (.wrongType v.found expected)

def float : Reader Float :=
  numeric "f64" fun n ↦ .ok n.toFloat

def natural : Reader Nat :=
  numeric "usize" fun
    | .natural n => .ok n
    | .negative n => refuse (.wrongNumber (.negative n) "usize")
    | .float x => refuse (.wrongType (.number (.float x)) "usize")

def optional (r : Reader α) : Reader (Option α) where
  ofText t :=
    match skipBlank t with
    | 'n' :: rest => (wellFormed (skipWord ['u', 'l', 'l'] rest)).map (none, ·)
    | t => (r.ofText t).map fun (a, rest) ↦ (some a, rest)
  ofValue
    | .null => .ok none
    | v => (r.ofValue v).map some

/-- The text of the next item of a list, or none before the closing bracket. -/
def nextItem (isFirst : Bool) (t : Text) : Except Failure (Option Text) :=
  match skipBlank t with
  | [] => .error .malformed
  | ']' :: _ => .ok none
  | c :: rest =>
    if isFirst then .ok (some (c :: rest))
    else if c = ',' then
      match skipBlank rest with
      | [] => .error .malformed
      | ']' :: _ => .error .malformed
      | t => .ok (some t)
    else .error .malformed

def closeList (t : Text) : Except Failure Text :=
  match skipBlank t with
  | ']' :: rest => .ok rest
  | _ => .error .malformed

def itemsOfText (r : Reader α) :
    (fuel : Nat) → (isFirst : Bool) → Text → Except Failure (List α × Text)
  | 0, _, _ => .error .malformed
  | fuel + 1, isFirst, t => do
    match ← nextItem isFirst t with
    | none => return ([], ← closeList t)
    | some t =>
      let (a, rest) ← r.ofText t
      let (as, rest) ← itemsOfText r fuel false rest
      return (a :: as, rest)

def list (r : Reader α) : Reader (List α) where
  ofText t :=
    match skipBlank t with
    | '[' :: rest => itemsOfText r (rest.length + 1) true rest
    | t => refuseFound "a sequence" t
  ofValue
    | .list vs => vs.mapM r.ofValue
    | v => refuse (.wrongType v.found "a sequence")

/-- The name of the next field of an object and the text after the name, or none before the closing
brace. -/
def nextName (isFirst : Bool) (t : Text) : Except Failure (Option (String × Text)) :=
  let nameAt := fun t : Text ↦
    match t with
    | '"' :: rest => (wellFormed (readString rest)).map some
    | _ => .error .malformed
  match skipBlank t with
  | [] => .error .malformed
  | '}' :: _ => .ok none
  | c :: rest =>
    if isFirst then nameAt (c :: rest)
    else if c = ',' then nameAt (skipBlank rest)
    else .error .malformed

def closeObject (t : Text) : Except Failure Text :=
  match skipBlank t with
  | '}' :: rest => .ok rest
  | _ => .error .malformed

def skipColon (t : Text) : Except Failure Text :=
  match skipBlank t with
  | ':' :: rest => .ok rest
  | _ => .error .malformed

def entriesOfText (r : Reader α) :
    (fuel : Nat) → (isFirst : Bool) → Text → Except Failure (List (String × α) × Text)
  | 0, _, _ => .error .malformed
  | fuel + 1, isFirst, t => do
    match ← nextName isFirst t with
    | none => return ([], ← closeObject t)
    | some (name, rest) =>
      let (a, rest) ← r.ofText (← skipColon rest)
      let (others, rest) ← entriesOfText r fuel false rest
      return ((name, a) :: others, rest)

def named (r : Reader α) : Reader (NameMap α) where
  ofText t :=
    match skipBlank t with
    | '{' :: rest =>
      (entriesOfText r (rest.length + 1) true rest).map fun (es, rest) ↦ (NameMap.ofList es, rest)
    | t => refuseFound "a map" t
  ofValue
    | .object fields => do
      return NameMap.ofList (← fields.mapM fun (name, v) ↦ return (name, ← r.ofValue v))
    | v => refuse (.wrongType v.found "a map")

/-- One of several words, as a string or as the only field of an object that holds null. -/
def choice (kind : String) (variants : List (String × α)) : Reader α where
  ofText t :=
    match skipBlank t with
    | '"' :: rest => do
      let (name, rest) ← wellFormed (readString rest)
      return (← pick name, rest)
    | '{' :: rest => do
      let (name, rest) ← nameOf rest
      let a ← pick name
      let rest ← unit (skipBlank (← skipColon rest))
      return (a, ← closeObject rest)
    | _ => .error .malformed
  ofValue
    | .text name => pick name
    | .object [(name, v)] => do
      let a ← pick name
      match v with
      | .null => return a
      | v => refuse (.wrongType v.found "unit")
    | .object _ => refuse (.wrongObject "map with a single key")
    | v => refuse (.wrongType v.found kind)
where
  pick (name : String) : Except Failure α :=
    match variants.lookup name with
    | some a => .ok a
    | none => refuse (.unknownVariant name (variants.map (·.1)))
  nameOf (t : Text) : Except Failure (String × Text) :=
    match skipBlank t with
    | '"' :: rest => wellFormed (readString rest)
    | t => refuseFound "variant identifier" t
  unit (t : Text) : Except Failure Text :=
    match t with
    | 'n' :: rest => wellFormed (skipWord ['u', 'l', 'l'] rest)
    | t => refuseFound "unit" t

end Reader

/-- Passes over a value of any kind. `open` holds the closing mark of each list and object around
the place, innermost first. -/
def skipValue : (fuel : Nat) → (around : List Char) → Text → Option Text
  | 0, _, _ => none
  | fuel + 1, around, t =>
    match skipBlank t with
    | '[' :: rest =>
      match skipBlank rest with
      | ']' :: rest => after fuel around rest
      | _ => skipValue fuel (']' :: around) rest
    | '{' :: rest =>
      match skipBlank rest with
      | '}' :: rest => after fuel around rest
      | _ => do skipValue fuel ('}' :: around) (← skipName rest)
    | 'n' :: rest => do after fuel around (← skipWord ['u', 'l', 'l'] rest)
    | 't' :: rest => do after fuel around (← skipWord ['r', 'u', 'e'] rest)
    | 'f' :: rest => do after fuel around (← skipWord ['a', 'l', 's', 'e'] rest)
    | '"' :: rest => do after fuel around (← skipString rest.length rest)
    | t => do after fuel around (← readNumeral t).2
where
  skipName (t : Text) : Option Text :=
    match skipBlank t with
    | '"' :: rest => do
      match skipBlank (← skipString rest.length rest) with
      | ':' :: rest => some rest
      | _ => none
    | _ => none
  /-- What comes after a value: the end, or the rest of the list or object around it. -/
  after : (fuel : Nat) → (around : List Char) → Text → Option Text
    | _, [], t => some t
    | 0, _, _ => none
    | fuel + 1, close :: around, t =>
      match skipBlank t with
      | [] => none
      | c :: rest =>
        if c = close then after fuel around rest
        else if c = ',' then do
          skipValue fuel (close :: around) (← if close = '}' then skipName rest else some rest)
        else none

end SystemDynamics.Json
