import SystemDynamics.Model.Exchange
import SystemDynamics.Simulation.Trajectory

namespace SystemDynamics

open Json (Reader Field Record Value)

def NameMap.toJson {α : Type} (write : α → Value) (m : NameMap α) : Value :=
  .object (m.map write).entries

def floatsToJson (xs : List Float) : Value :=
  .list (xs.map .ofFloat)

def RunSettings.record : Record RunSettings where
  name := "RunMetadata"
  fields := [
    (Field.of "model_name" .text fun x r ↦ { r with modelName := x }).required,
    (Field.of "parameters" (.named .float) fun x r ↦ { r with parameters := x }).required,
    (Field.of "time_config" Horizon.record.reader fun x r ↦ { r with horizon := x }).required]
  isClosed := false
  blank := ⟨"", .empty, .unsaid⟩

def Trajectory.record : Record Trajectory where
  name := "SimulationResult"
  fields := [
    (Field.of "time" (.list .float) fun x r ↦ { r with time := x }).required,
    (Field.of "stocks" (.named (.list .float)) fun x r ↦ { r with stocks := x }).required,
    (Field.of "flows" (.named (.list .float)) fun x r ↦ { r with flows := x }).required,
    (Field.of "auxiliaries" (.named (.list .float)) fun x r ↦ { r with auxiliaries := x }).required,
    (Field.of "metadata" RunSettings.record.reader fun x r ↦ { r with settings := x }).required]
  isClosed := false
  blank := ⟨[], .empty, .empty, .empty, RunSettings.record.blank⟩

def Trajectory.ofJson (text : String) : Except Json.Failure Trajectory :=
  record.reader.read text

def RunSettings.toJson (r : RunSettings) : Value :=
  .object [("model_name", .text r.modelName), ("parameters", r.parameters.toJson .ofFloat),
    ("time_config", r.horizon.toJson)]

def Trajectory.toJson (r : Trajectory) : Value :=
  .object [("time", floatsToJson r.time), ("stocks", r.stocks.toJson floatsToJson),
    ("flows", r.flows.toJson floatsToJson), ("auxiliaries", r.auxiliaries.toJson floatsToJson),
    ("metadata", r.settings.toJson)]

def Trajectory.pretty (r : Trajectory) : String :=
  r.toJson.pretty

end SystemDynamics
