import SystemDynamics.Number.Spelling
import SystemDynamics.Simulation.Trajectory
import SystemDynamics.Text.Padding

namespace SystemDynamics.Trajectory

open Number (fixed)

variable (r : Trajectory)

def timeWidth : Nat := 10

def columnWidth : Nat :=
  (r.stocks.names.map String.utf8ByteSize).foldl max 12

def tableLine (width : Nat) (time : String) (cells : List String) : String :=
  "  ".intercalate (Text.padLeft timeWidth time :: cells.map (Text.padLeft width)) ++ "\n"

/-- The points that are printed: every so many, the first among them, and the last. -/
def printedPoints (every : Nat) : List Nat :=
  (List.range r.points).filter fun i ↦ i % max every 1 = 0 || i + 1 = r.points

def table (every : Nat) : String :=
  let width := r.columnWidth
  let times := r.time.toArray
  let columns := r.stocks.values.map List.toArray
  tableLine width "time" r.stocks.names ++
    String.join ((r.printedPoints every).map fun i ↦
      tableLine width (fixed 3 (times.getD i 0)) (columns.map fun xs ↦ fixed 3 (xs.getD i 0)))

end SystemDynamics.Trajectory
