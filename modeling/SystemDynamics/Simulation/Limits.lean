import SystemDynamics.Json.Record
import SystemDynamics.Number.Reading
import SystemDynamics.Text.Blank

namespace SystemDynamics

structure Limits where
  /-- Runs over a grid with more points are refused before anything is evaluated. -/
  maxGridPoints : Nat := 250000
  deriving DecidableEq

def Limits.setting : String := "SDSIM_MAX_GRID_POINTS"

namespace Limits

/-- The limits under a setting, which counts if it is a positive number. -/
def ofSetting (setting : Option String) : Limits :=
  match setting.bind (Number.natural? ∘ Text.trim) with
  | some (n + 1) => ⟨n + 1⟩
  | _ => {}

open Json (Field Record)

def record : Record Limits where
  name := "EngineConfig"
  fields := [.of "max_grid_points" .natural fun n l ↦ { l with maxGridPoints := n }]
  isClosed := false
  blank := {}

end Limits

end SystemDynamics
