import SystemDynamics.Model.Horizon
import SystemDynamics.NameMap
import SystemDynamics.Simulation.Ledger

namespace SystemDynamics

structure RunSettings where
  modelName : String
  /-- The values that were used for the parameters. -/
  parameters : NameMap Float
  horizon : Horizon
  deriving DecidableEq

structure Trajectory where
  time : List Float
  stocks : NameMap (List Float)
  flows : NameMap (List Float)
  auxiliaries : NameMap (List Float)
  settings : RunSettings
  deriving DecidableEq

namespace Ledger

def series (l : Ledger) (first : Nat) (ids : List String) : NameMap (List Float) :=
  NameMap.ofList (ids.zipIdx.map fun (id, i) ↦ (id, l.row (first + i)))

end Ledger

namespace Trajectory

variable (r : Trajectory)

def series? (id : String) : Option (List Float) :=
  (r.stocks.find? id <|> r.flows.find? id) <|> r.auxiliaries.find? id

/-- The values of all variables at a point. Where two have the same id, flows hide stocks, and
auxiliaries both. -/
def snapshot (point : Nat) : NameMap Float :=
  NameMap.ofList
    ((r.stocks.entries ++ r.flows.entries ++ r.auxiliaries.entries).filterMap fun (id, xs) ↦
      xs[point]?.map (id, ·))

def points : Nat :=
  r.time.length

end Trajectory

end SystemDynamics
