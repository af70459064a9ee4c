import SystemDynamics.Analysis.Scenario

namespace SystemDynamics

open Json (Value)
open Number (Spelling)

inductive SweepError where
  | unknownParameter (name : String)
  | noSteps
  | unboundedRange (first last : Float)
  deriving DecidableEq

def SweepError.message : SweepError → String
  | unknownParameter name => "model has no parameter '" ++ name ++ "'"
  | noSteps => "a sweep needs at least one step"
  | unboundedRange first last =>
    "sweep bounds must be finite, got " ++ Spelling.sentence.write first ++ ".." ++
      Spelling.sentence.write last

/-- Evenly spaced values from the first to the last; of one step only the first. -/
def sweep (first last : Float) (steps : Nat) : List Float :=
  if steps = 1 then [first]
  else
    (List.range steps).map fun i ↦
      if i + 1 = steps then last
      else first + (last - first) * (Float.ofNat i / Float.ofNat (steps - 1))

structure Sensitivity where
  parameter : String
  values : List Float
  runs : List Outcome

def Model.sensitivity (m : Model) (parameter : String) (first last : Float) (steps limit : Nat) :
    Except SweepError Sensitivity :=
  if (m.document.parameter? parameter).isNone then .error (.unknownParameter parameter)
  else if steps = 0 then .error .noSteps
  else if !first.isFinite || !last.isFinite then .error (.unboundedRange first last)
  else
    let values := sweep first last steps
    let scenarios := values.map fun x ↦
      { name := parameter ++ "=" ++ Spelling.sentence.write x
        parameters := NameMap.ofList [(parameter, x)] : Scenario }
    .ok ⟨parameter, values, m.compare scenarios limit⟩

def Sensitivity.toJson (s : Sensitivity) : Value :=
  .object [("parameter", .text s.parameter), ("values", floatsToJson s.values),
    ("runs", outcomesToJson s.runs)]

end SystemDynamics
