import SystemDynamics.Model.Exchange

namespace SystemDynamics

open Json (Value)
open Number (Spelling)

namespace Json

def Number.plain : Number → String
  | float x => Spelling.sentence.write x
  | n => n.write

namespace Value

mutual

def inline : Value → String
  | number n => n.plain
  | list items => "[" ++ ", ".intercalate (inlineItems items) ++ "]"
  | object fields => "\x7b" ++ ", ".intercalate (inlineFields fields) ++ "\x7d"
  | v => v.compact

def inlineItems : List Value → List String
  | [] => []
  | v :: vs => v.inline :: inlineItems vs

def inlineFields : List (String × Value) → List String
  | [] => []
  | (name, v) :: fields => (writeString name ++ ": " ++ v.inline) :: inlineFields fields

end

end Value

end Json

/-- A list of declarations goes over many lines, anything else on one. -/
def fieldListing (field : String × Value) : String :=
  Json.writeString field.1 ++ ": " ++
    match field.2 with
    | .list items => Value.block "[" "]" 1 (items.map Value.inline)
    | v => v.inline

def Document.listing (d : Document) : String :=
  match d.toJson with
  | .object fields => Value.block "\x7b" "\x7d" 0 (fields.map fieldListing)
  | v => v.inline

end SystemDynamics
