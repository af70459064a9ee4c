import SystemDynamics.Simulation.Grid
import SystemDynamics.Simulation.RungeKutta
import SystemDynamics.Simulation.Trajectory
import SystemDynamics.Validation.Acceptance

namespace SystemDynamics

open Equation (Fault)
open Number (Spelling)

inductive RunError where
  | evaluation (owner equation : String) (time : Float) (fault : Fault)
  | gridTooLarge (points limit : Nat)
  | invalidOverride (parameter : String)
  deriving DecidableEq

def RunError.message : RunError → String
  | evaluation owner equation time fault =>
    "evaluating '" ++ owner ++ "' = `" ++ equation ++ "` at time " ++
      Spelling.sentence.write time ++ ": " ++ fault.message
  | gridTooLarge points limit =>
    "time grid would have " ++ toString points ++ " points, limit is " ++ toString limit
  | invalidOverride parameter =>
    "override for parameter '" ++ parameter ++ "' is not a finite number"

/-- The rows of a ledger by the ids that their slots belong to. The rows of parameters are left
out. -/
def Layout.trajectory (layout : Layout) (l : Ledger) (settings : RunSettings) : Trajectory where
  time := l.row 0
  stocks := l.series Layout.firstStock layout.stocks
  flows := l.series layout.firstFlow layout.flows
  auxiliaries := l.series layout.firstAuxiliary layout.auxiliaries
  settings

namespace Model

variable (m : Model)

/-- The values of the parameters, with those replaced that are overridden. Of the overrides that
are not finite, the first in the order of names is reported. -/
def resolve (overrides : NameMap Float) : Except RunError (List Float) :=
  match overrides.entries.find? (!·.2.isFinite) with
  | some (id, _) => .error (.invalidOverride id)
  | none =>
    .ok (List.zipWith (fun id x ↦ (overrides.find? id).getD x)
      m.program.layout.parameters m.program.parameters)

def failure (time : Float) (i : Instruction) (fault : Fault) : RunError :=
  let (owner, equation) := (m.document.equation? i.owner).getD ("", "")
  .evaluation owner equation time fault

/-- The values of all slots, given the time and the stocks, computed in a frame that holds those of
an earlier moment. -/
def evaluate (f : Frame) (time : Float) (stocks : List Float) : Except RunError Frame :=
  (m.program.run (Program.load f time stocks)).mapError fun (i, fault) ↦ m.failure time i fault

/-- The rates of the stocks, computed in a frame; after a failure it is not used again. -/
def rate : MachineRate Frame Float RunError := fun f time stocks buffer ↦
  match m.evaluate f time stocks with
  | .ok f => (f, m.program.rates (m.program.flowIn f), none)
  | .error e => (f, buffer, some e)

/-- Records the frames at the points of a grid, the first of which has the number `point`. One
frame serves all evaluations. -/
def recordFrom : (grid : List Float) → (point : Nat) → (stocks : List Float) → Frame →
    RungeKutta Float → Ledger → Except RunError Ledger
  | [], _, _, _, _, l => .ok l
  | [t], point, stocks, f, _, l => do
    let f ← m.evaluate f t stocks
    return l.record point f
  | t :: next :: grid, point, stocks, f, s, l => do
    let f ← m.evaluate f t stocks
    let l := l.record point f
    let (f, s, stepped) := s.stepWith m.rate f t (next - t) stocks
    let stocks ← stepped
    recordFrom (next :: grid) (point + 1) stocks f s l

variable (parameters : List Float)

def settings : RunSettings :=
  ⟨m.document.name, NameMap.ofList (m.program.layout.parameters.zip parameters), m.horizon⟩

/-- Runs the model over its horizon, unless the grid has more points than `limit`. -/
def simulate (overrides : NameMap Float) (limit : Nat) : Except RunError Trajectory := do
  let parameters ← m.resolve overrides
  let grid ← (Grid.build m.horizon.start m.horizon.stop m.horizon.step limit).mapError
    fun points ↦ .gridTooLarge points limit
  let stocks := m.program.initialStocks
  let ledger ← m.recordFrom grid 0 stocks (m.program.frame 0 stocks parameters)
    (.ofDimension stocks.length) (.blank m.program.layout.size grid.length)
  return m.program.layout.trajectory ledger (m.settings parameters)

end Model

end SystemDynamics
