import SystemDynamics.Json.Scan
import SystemDynamics.NameMap

namespace SystemDynamics.Json

/-- Lists and objects may nest one level less deep than this. -/
def maxDepth : Nat := 128

abbrev Level := Text → Option (Value × Text)

section

variable (deeper : Level)

def items : (fuel : Nat) → Text → Option (List Value × Text)
  | 0, _ => none
  | fuel + 1, text => do
    let (v, rest) ← deeper text
    match skipBlank rest with
    | ',' :: rest => do
      let (vs, rest) ← items fuel rest
      return (v :: vs, rest)
    | ']' :: rest => some ([v], rest)
    | _ => none

def fields : (fuel : Nat) → Text → Option (List (String × Value) × Text)
  | 0, _ => none
  | fuel + 1, text =>
    match skipBlank text with
    | '"' :: rest => do
      let (name, rest) ← readString rest
      match skipBlank rest with
      | ':' :: rest => do
        let (v, rest) ← deeper rest
        match skipBlank rest with
        | ',' :: rest => do
          let (vs, rest) ← fields fuel rest
          return ((name, v) :: vs, rest)
        | '}' :: rest => some ([(name, v)], rest)
        | _ => none
      | _ => none
    | _ => none

def listOf (text : Text) : Option (Value × Text) :=
  match skipBlank text with
  | ']' :: rest => some (.list [], rest)
  | _ => (items deeper text.length text).map fun (vs, rest) ↦ (.list vs, rest)

def objectOf (text : Text) : Option (Value × Text) :=
  match skipBlank text with
  | '}' :: rest => some (.object [], rest)
  | _ => (fields deeper text.length text).map fun (vs, rest) ↦
    (.object (NameMap.ofList vs).entries, rest)

end

/-- Reads a value in which lists and objects nest at most so deep. -/
def readValue : (depth : Nat) → Level
  | depth, text =>
    match skipBlank text with
    | 'n' :: rest => (skipWord ['u', 'l', 'l'] rest).map (.null, ·)
    | 't' :: rest => (skipWord ['r', 'u', 'e'] rest).map (.bool true, ·)
    | 'f' :: rest => (skipWord ['a', 'l', 's', 'e'] rest).map (.bool false, ·)
    | '"' :: rest => (readString rest).map fun (s, rest) ↦ (.text s, rest)
    | '[' :: rest =>
      match depth with
      | 0 => none
      | depth + 1 => listOf (readValue depth) rest
    | '{' :: rest =>
      match depth with
      | 0 => none
      | depth + 1 => objectOf (readValue depth) rest
    | text => (readNumber text).map fun (n, rest) ↦ (.number n, rest)

def Value.ofText? (text : String) : Option Value := do
  let (v, rest) ← readValue (maxDepth - 1) text.toList
  if (skipBlank rest).isEmpty then some v else none

end SystemDynamics.Json
