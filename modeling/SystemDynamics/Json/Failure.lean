import SystemDynamics.Json.Scan
import SystemDynamics.Json.Writing
import SystemDynamics.Text.Quoted

namespace SystemDynamics.Json

inductive Found where
  | null
  | bool (b : Bool)
  | number (n : Number)
  | text (s : String)
  | list
  | object

inductive Refusal where
  | wrongType (found : Found) (expected : String)
  | wrongNumber (found : Number) (expected : String)
  | wrongLength (length : Nat) (expected : String)
  | wrongObject (expected : String)
  | unknownField (name : String) (known : List String)
  | duplicateField (name : String)
  | missingField (name : String)
  | unknownVariant (name : String) (known : List String)

inductive Failure where
  | malformed
  | refused (why : Refusal)

def Number.describe : Number → String
  | natural n => "integer `" ++ toString n ++ "`"
  | negative n => "integer `-" ++ toString n ++ "`"
  | float x => "floating point `" ++ spelling.write x ++ "`"

def Found.describe : Found → String
  | null => "null"
  | bool b => "boolean `" ++ (if b then "true" else "false") ++ "`"
  | number n => n.describe
  | text s => "string " ++ Text.quoted s
  | list => "sequence"
  | object => "map"

def Value.found : Value → Found
  | null => .null
  | bool b => .bool b
  | number n => .number n
  | text s => .text s
  | list _ => .list
  | object _ => .object

def alternatives (names : List String) : String :=
  match names.map fun name ↦ "`" ++ name ++ "`" with
  | [] => "there are no fields"
  | [a] => "expected " ++ a
  | [a, b] => "expected " ++ a ++ " or " ++ b
  | names => "expected one of " ++ ", ".intercalate names

def Refusal.message : Refusal → String
  | wrongType found expected => "invalid type: " ++ found.describe ++ ", expected " ++ expected
  | wrongNumber found expected => "invalid value: " ++ found.describe ++ ", expected " ++ expected
  | wrongLength length expected =>
    "invalid length " ++ toString length ++ ", expected " ++ expected
  | wrongObject expected => "invalid value: map, expected " ++ expected
  | unknownField name known => "unknown field `" ++ name ++ "`, " ++ alternatives known
  | duplicateField name => "duplicate field `" ++ name ++ "`"
  | missingField name => "missing field `" ++ name ++ "`"
  | unknownVariant name known => "unknown variant `" ++ name ++ "`, " ++ alternatives known

def wellFormed {α : Type} : Option α → Except Failure α
  | some a => .ok a
  | none => .error .malformed

def refuse {α : Type} (why : Refusal) : Except Failure α :=
  .error (.refused why)

/-- What starts at a text. The content of a list or an object is not looked at. -/
def found (text : Text) : Except Failure Found :=
  match text with
  | 'n' :: rest => (wellFormed (skipWord ['u', 'l', 'l'] rest)).map fun _ ↦ .null
  | 't' :: rest => (wellFormed (skipWord ['r', 'u', 'e'] rest)).map fun _ ↦ .bool true
  | 'f' :: rest => (wellFormed (skipWord ['a', 'l', 's', 'e'] rest)).map fun _ ↦ .bool false
  | '"' :: rest => (wellFormed (readString rest)).map fun p ↦ .text p.1
  | '[' :: _ => .ok .list
  | '{' :: _ => .ok .object
  | text => (wellFormed (readNumber text)).map fun p ↦ .number p.1

def refuseFound {α : Type} (expected : String) (text : Text) : Except Failure α := do
  refuse (.wrongType (← found text) expected)

end SystemDynamics.Json
