import SystemDynamics.Dependency.Graph
import SystemDynamics.Equation.Evaluation

namespace SystemDynamics

open Equation (Term Fault)

structure Layout where
  stocks : List String
  parameters : List String
  auxiliaries : List String
  flows : List String
  deriving DecidableEq

namespace Layout

def ofDocument (d : Document) : Layout :=
  ⟨d.stocks.map (·.id), d.parameters.map (·.id), d.auxiliaries.map (·.id), d.flows.map (·.id)⟩

variable (l : Layout)

def names : List String :=
  "time" :: l.stocks ++ l.parameters ++ l.auxiliaries ++ l.flows

def size : Nat :=
  l.names.length

def firstStock : Nat := 1

def firstParameter : Nat :=
  firstStock + l.stocks.length

def firstAuxiliary : Nat :=
  l.firstParameter + l.parameters.length

def firstFlow : Nat :=
  l.firstAuxiliary + l.auxiliaries.length

def slot : Computed → Nat
  | .auxiliary i => l.firstAuxiliary + i
  | .flow i => l.firstFlow + i

/-- The slot a name stands for. The time has two names, the second of which nothing can take. -/
def slot? (name : String) : Option Nat :=
  if name = "t" then some 0 else l.names.findIdx? (· == name)

end Layout

def spellSlot (slot : Nat) : String :=
  "#" ++ toString slot

structure Instruction where
  owner : Computed
  slot : Nat
  term : Term Nat

structure Program where
  layout : Layout
  initialStocks : List Float
  parameters : List Float
  instructions : List Instruction
  /-- For each stock the flows that fill it. -/
  inflows : List (List Nat)
  /-- For each stock the flows that drain it. -/
  outflows : List (List Nat)

inductive CompileError where
  | parse (owner : String) (fault : Fault)
  | unresolvedName (owner name : String)
  | undeclared (computed : Computed)

def CompileError.message : CompileError → String
  | parse owner fault => "equation of '" ++ owner ++ "' does not parse: " ++ fault.message
  | unresolvedName owner name =>
    "equation of '" ++ owner ++ "' names '" ++ name ++ "', which is not declared"
  | undeclared _ => "an equation to compile is not declared"

/-- The flows with an end at each stock. Where two stocks share an id, the last takes the flows. -/
def wiring (d : Document) (side : Flow → Option String) : List (List Nat) :=
  d.stocks.zipIdx.map fun (s, i) ↦
    if (d.stocks.drop (i + 1)).any (·.id == s.id) then []
    else d.flows.zipIdx.filterMap fun (f, j) ↦ if side f == some s.id then some j else none

def Document.compileOne (d : Document) (computed : Computed) : Except CompileError Instruction := do
  let some (owner, equation) := d.equation? computed | .error (.undeclared computed)
  let layout := Layout.ofDocument d
  let term ← (Equation.parse equation).mapError (.parse owner)
  let term ← term.rename fun name ↦
    match layout.slot? name with
    | some slot => .ok slot
    | none => .error (.unresolvedName owner name)
  return ⟨computed, layout.slot computed, term⟩

def Document.compile (d : Document) (order : List Computed) : Except CompileError Program := do
  let instructions ← order.mapM d.compileOne
  return {
    layout := Layout.ofDocument d
    initialStocks := d.stocks.map (·.initialValue.getD 0)
    parameters := d.parameters.map (·.value.getD 0)
    instructions
    inflows := wiring d (·.target)
    outflows := wiring d (·.source) }

abbrev Frame := Array Float

namespace Program

variable (p : Program)

def frame (time : Float) (stocks parameters : List Float) : Frame :=
  (time :: stocks ++ parameters ++
    List.replicate (p.layout.auxiliaries.length + p.layout.flows.length) 0).toArray

/-- Writes the time and the stocks over a frame. Parameters stay, and so does what was computed. -/
def load (f : Frame) (time : Float) (stocks : List Float) : Frame :=
  (time :: stocks).zipIdx.foldl (fun f (x, slot) ↦ f.setIfInBounds slot x) f

def execute (f : Frame) (i : Instruction) : Except (Instruction × Fault) Frame :=
  match i.term.eval spellSlot (f[·]?) with
  | .ok x => .ok (f.setIfInBounds i.slot x)
  | .error fault => .error (i, fault)

def run (f : Frame) : Except (Instruction × Fault) Frame :=
  p.instructions.foldlM execute f

end Program

section

variable {α : Type} [Add α] [Sub α] [Neg α] [OfScientific α]

/-- The sum of no terms is the negative zero, which changes no term added to it. -/
def total (terms : List α) : α :=
  terms.foldl (· + ·) (-0.0)

def netFlow (flow : Nat → α) (inflows outflows : List Nat) : α :=
  total (inflows.map flow) - total (outflows.map flow)

def Program.rates (p : Program) (flow : Nat → α) : List α :=
  List.zipWith (netFlow flow) p.inflows p.outflows

end

def Program.flowIn (p : Program) (f : Frame) (i : Nat) : Float :=
  f.getD (p.layout.firstFlow + i) 0

end SystemDynamics
