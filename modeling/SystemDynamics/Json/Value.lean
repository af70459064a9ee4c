import SystemDynamics.Number.Spelling

namespace SystemDynamics.Json

open SystemDynamics.Number (Spelling)

/-- A number as it was written: whole numbers of sixty-four bits are kept apart from doubles. -/
inductive Number where
  | natural (n : Nat)
  /-- The number `-n`. -/
  | negative (n : Nat)
  | float (x : Float)
  deriving DecidableEq

def Number.toFloat : Number → Float
  | natural n => Float.ofNat n
  | negative n => -Float.ofNat n
  | float x => x

inductive Value where
  | null
  | bool (b : Bool)
  | number (n : Number)
  | text (s : String)
  | list (items : List Value)
  | object (fields : List (String × Value))

/-- Numbers keep a point, and an exponent its sign; the exponent appears below `10 ^ -5` and from
`10 ^ 16` on. -/
def spelling : Spelling :=
  ⟨fun e ↦ -5 ≤ e && e < 16, true, true, .even⟩

/-- A double as a number; one that is not finite has no text of its own. -/
def Value.ofFloat (x : Float) : Value :=
  if x.isFinite then .number (.float x) else .null

def Value.ofNat (n : Nat) : Value :=
  .number (.natural n)

def Value.field? (name : String) : Value → Option Value
  | .object fields => fields.lookup name
  | _ => none

end SystemDynamics.Json
