import SystemDynamics.Number.Spelling
import SystemDynamics.Simulation.Run

namespace SystemDynamics

open Dependency (Graph)
open Number (Spelling fixed)

inductive Trace where
  | opened (node : Variable) (level : Nat) (children : List Trace)
  | met (node : Variable) (level : Nat)

namespace Trace

/-- The ids that were opened, with their levels, the latest first. -/
abbrev Opened := List (String × Nat)

/-- Opens a variable unless it was met. No path leads through more than `depth` variables. -/
def ofNode (leads : Variable → List Variable) :
    (depth level : Nat) → Variable → Opened → Trace × Opened
  | 0, level, v, seen => (.opened v level [], seen)
  | depth + 1, level, v, seen =>
    match seen.lookup v.id with
    | some first => (.met v first, seen)
    | none =>
      let (children, seen) := (leads v).foldl
        (fun (children, seen) child ↦
          let (t, seen) := ofNode leads depth (level + 1) child seen
          (children ++ [t], seen))
        ([], (v.id, level) :: seen)
      (.opened v level children, seen)

end Trace

namespace Document

variable (d : Document)

def flowsWith (side : Flow → Option String) (stock : String) : List String :=
  (d.flows.filter fun f ↦ side f == some stock).map (·.id)

def fillers (stock : String) : List String :=
  d.flowsWith (·.target) stock

def drains (stock : String) : List String :=
  d.flowsWith (·.source) stock

def leads (g : Graph) (v : Variable) : List Variable :=
  match v.kind with
  | .parameter => []
  | .stock => (d.fillers v.id ++ d.drains v.id).filterMap g.find?
  | .auxiliary | .flow => g.dependencies v.id

def role (v : Variable) : String :=
  match v.kind with
  | .parameter => " -> Param"
  | .stock =>
    let terms := (d.fillers v.id).map (" + " ++ ·) ++ (d.drains v.id).map (" - " ++ ·)
    " -> Stock, d/dt =" ++ (if terms.isEmpty then " 0" else String.join terms)
  | .auxiliary | .flow =>
    " = " ++ ((v.computed?.bind d.equation?).elim "" (·.2))

end Document

/-- The recorded value of a variable, or the value that a parameter had. -/
def Trajectory.valueAt? (r : Trajectory) (point : Nat) (id : String) : Option Float :=
  (r.series? id).bind (·[point]?) <|> r.settings.parameters.find? id

namespace Trace

variable (d : Document) (r : Trajectory) (point : Nat)

def valueText (id : String) : String :=
  (r.valueAt? point id).elim "[?]" fun x ↦ "[" ++ fixed 3 x ++ "]"

mutual

/-- The lines of a trace. `mark` stands before its first line, `stem` before the marks of its
children. -/
def lines (stem mark : String) : Trace → List String
  | met v level => [mark ++ v.id ++ " -> (Ref to L" ++ toString level ++ ")"]
  | opened v level children =>
    (mark ++ "[L" ++ toString level ++ "] " ++ v.id ++ valueText r point v.id ++ d.role v) ::
      linesAll stem children

def linesAll (stem : String) : List Trace → List String
  | [] => []
  | [t] => t.lines (stem ++ "   ") (stem ++ "`--")
  | t :: ts => t.lines (stem ++ "|  ") (stem ++ "|--") ++ linesAll stem ts

end

end Trace

def Model.trace? (m : Model) (id : String) : Option Trace :=
  let g := Graph.ofDocument m.document
  (g.find? id).map fun v ↦
    (Trace.ofNode (m.document.leads g) (g.count + 1) 1 v []).1

def Model.traceText (m : Model) (r : Trajectory) (id : String) (point : Nat) : String :=
  match m.trace? id, r.time[point]? with
  | none, _ => "Error: '" ++ id ++ "' is not declared in this model\n"
  | some _, none =>
    "Error: grid point " ++ toString point ++ " is out of range (0.." ++ toString r.points ++ ")\n"
  | some t, some time =>
    "TRACE for '" ++ id ++ "' at time " ++ Spelling.sentence.write time ++ ":\n" ++
      String.ofList (List.replicate 50 '-') ++ "\n" ++
      String.join ((t.lines m.document r point "" "").map (· ++ "\n"))

end SystemDynamics
