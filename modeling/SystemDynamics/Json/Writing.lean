import SystemDynamics.Json.Value

namespace SystemDynamics.Json

def hexByte (n : Nat) : List Char :=
  [Nat.digitChar (n / 16), Nat.digitChar (n % 16)]

/-- Only quotes, backslashes and control characters are escaped. -/
def escape (c : Char) : List Char :=
  match c with
  | '"' => ['\\', '"']
  | '\\' => ['\\', '\\']
  | '\x08' => ['\\', 'b']
  | '\x0c' => ['\\', 'f']
  | '\n' => ['\\', 'n']
  | '\r' => ['\\', 'r']
  | '\t' => ['\\', 't']
  | _ => if c.toNat < 0x20 then ['\\', 'u', '0', '0'] ++ hexByte c.toNat else [c]

def writeString (s : String) : String :=
  String.ofList ('"' :: s.toList.flatMap escape ++ ['"'])

def Number.write : Number → String
  | natural n => toString n
  | negative n => "-" ++ toString n
  | float x => spelling.write x

namespace Value

mutual

def compact : Value → String
  | null => "null"
  | bool b => if b then "true" else "false"
  | number n => n.write
  | text s => writeString s
  | list items => "[" ++ ",".intercalate (compactItems items) ++ "]"
  | object fields => "\x7b" ++ ",".intercalate (compactFields fields) ++ "\x7d"

def compactItems : List Value → List String
  | [] => []
  | v :: vs => v.compact :: compactItems vs

def compactFields : List (String × Value) → List String
  | [] => []
  | (name, v) :: fields => (writeString name ++ ":" ++ v.compact) :: compactFields fields

end

def newLine (depth : Nat) : String :=
  "\n" ++ String.ofList (List.replicate (2 * depth) ' ')

def block (opening closing : String) (depth : Nat) : List String → String
  | [] => opening ++ closing
  | items =>
    opening ++ newLine (depth + 1) ++ ("," ++ newLine (depth + 1)).intercalate items ++
      newLine depth ++ closing

mutual

def prettyAt (depth : Nat) : Value → String
  | null => "null"
  | bool b => if b then "true" else "false"
  | number n => n.write
  | text s => writeString s
  | list items => block "[" "]" depth (prettyItems (depth + 1) items)
  | object fields => block "\x7b" "\x7d" depth (prettyFields (depth + 1) fields)

def prettyItems (depth : Nat) : List Value → List String
  | [] => []
  | v :: vs => v.prettyAt depth :: prettyItems depth vs

def prettyFields (depth : Nat) : List (String × Value) → List String
  | [] => []
  | (name, v) :: fields =>
    (writeString name ++ ": " ++ v.prettyAt depth) :: prettyFields depth fields

end

def pretty (v : Value) : String :=
  v.prettyAt 0

end Value

end SystemDynamics.Json
