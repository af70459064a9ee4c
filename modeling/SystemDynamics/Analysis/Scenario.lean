import SystemDynamics.Simulation.Exchange
import SystemDynamics.Simulation.Run

namespace SystemDynamics

open Json (Reader Field Record Value)

structure Scenario where
  name : String
  parameters : NameMap Float := .empty

namespace Scenario

def record : Record Scenario where
  name := "Scenario"
  fields := [
    (Field.of "name" .text fun x s ↦ { s with name := x }).required,
    .of "parameters" (.named .float) fun x s ↦ { s with parameters := x }]
  isClosed := false
  blank := { name := "" }

def listOfJson (text : String) : Except Json.Failure (List Scenario) :=
  (Reader.list record.reader).read text

end Scenario

structure Outcome where
  scenario : Scenario
  result : Except RunError Trajectory

/-- Every scenario runs by itself; the outcomes keep the order. -/
def Model.compare (m : Model) (scenarios : List Scenario) (limit : Nat) : List Outcome :=
  scenarios.map fun s ↦ ⟨s, m.simulate s.parameters limit⟩

def Outcome.toJson (o : Outcome) : Value :=
  .object [("name", .text o.scenario.name),
    ("parameters", o.scenario.parameters.toJson .ofFloat),
    match o.result with
    | .ok r => ("results", r.toJson)
    | .error e => ("error", .text e.message)]

def outcomesToJson (os : List Outcome) : Value :=
  .list (os.map (·.toJson))

end SystemDynamics
