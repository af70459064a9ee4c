import SystemDynamics.Dependency.Walk
import SystemDynamics.Equation.Lexeme
import SystemDynamics.Model.Document

namespace SystemDynamics

structure Variable where
  id : String
  kind : Kind
  index : Nat
  deriving DecidableEq

inductive Computed where
  | auxiliary (index : Nat)
  | flow (index : Nat)
  deriving DecidableEq

def Variable.computed? (v : Variable) : Option Computed :=
  match v.kind with
  | .auxiliary => some (.auxiliary v.index)
  | .flow => some (.flow v.index)
  | .stock | .parameter => none

def numbered (kind : Kind) (ids : List String) : List Variable :=
  ids.zipIdx.map fun (id, index) ↦ ⟨id, kind, index⟩

namespace Document

variable (d : Document)

/-- Every declared variable in the order of rank: stocks, parameters, auxiliaries, flows. -/
def nodes : List Variable :=
  numbered .stock (d.stocks.map (·.id)) ++ numbered .parameter (d.parameters.map (·.id)) ++
    numbered .auxiliary (d.auxiliaries.map (·.id)) ++ numbered .flow (d.flows.map (·.id))

def equation? : Computed → Option (String × String)
  | .auxiliary i => d.auxiliaries[i]?.map fun a ↦ (a.id, a.equation)
  | .flow i => d.flows[i]?.map fun f ↦ (f.id, f.equation)

end Document

/-- The names in an equation; one that has no lexemes names nothing. -/
def namesIn (equation : String) : List String :=
  (Equation.identifiers equation).toOption.getD []

namespace Dependency

structure Graph where
  nodes : List Variable
  /-- For each rank the ranks that its equation names, in rising order. -/
  reads : List (List Nat)

namespace Graph

def rankIn (nodes : List Variable) (id : String) : Option Nat :=
  nodes.findIdx? (·.id == id)

def ofDocument (d : Document) : Graph where
  nodes := d.nodes
  reads := d.nodes.map fun v ↦
    match v.computed?.bind d.equation? with
    | none => []
    | some (_, equation) =>
      let named := (namesIn equation).filterMap (rankIn d.nodes)
      (List.range d.nodes.length).filter named.contains

variable (g : Graph)

def count : Nat :=
  g.nodes.length

def rank? (id : String) : Option Nat :=
  rankIn g.nodes id

def readsOf (n : Nat) : List Nat :=
  (g.reads[n]?).getD []

def find? (id : String) : Option Variable :=
  g.nodes.find? (·.id == id)

def dependencies (id : String) : List Variable :=
  ((g.rank? id).elim [] g.readsOf).filterMap (g.nodes[·]?)

def dependsOn (id target : String) : Bool :=
  match g.rank? id, g.rank? target with
  | some n, some m => n != m && (reached g.readsOf g.count n).contains m
  | _, _ => false

def cycles : List (List String) :=
  (Dependency.cycles g.readsOf g.count).map fun c ↦ c.filterMap fun n ↦ g.nodes[n]?.map (·.id)

/-- The computed variables, each after those it reads; or the cycles that leave no such order. -/
def evaluationOrder : Except (List (List String)) (List Computed) :=
  match g.cycles with
  | [] => .ok ((walkAll g.readsOf g.count).filterMap fun n ↦ g.nodes[n]?.bind (·.computed?))
  | cycles => .error cycles

end Graph

end Dependency

end SystemDynamics
