import SystemDynamics.Model.Exchange
import SystemDynamics.Domain.Exchange
import SystemDynamics.Text.Padding
import SystemDynamics.Validation.Violation

namespace SystemDynamics

open Json (Value)

def Violation.line (v : Violation) (number : Nat) : String :=
  Text.padLeft 3 (toString number) ++ ". [" ++ v.kind.name ++ "] " ++ v.message ++
    (v.offender?.elim "" fun id ↦ " (at '" ++ id ++ "')") ++ "\n"

def rejectionCount (vs : List Violation) : String :=
  toString vs.length ++ " violation(s)"

def violationsText (vs : List Violation) : String :=
  "Model rejected with " ++ rejectionCount vs ++ ":\n" ++
    String.join (vs.zipIdx.map fun (v, i) ↦ v.line (i + 1))

/-- The offender is left out where there is none, as are related names. -/
def Violation.toJson (v : Violation) : Value :=
  .object ([("kind", .text v.kind.name), ("message", .text v.message)] ++
    presentField "offending_id" .text v.offender? ++
    if v.related.isEmpty then [] else [("related", textList v.related)])

end SystemDynamics
