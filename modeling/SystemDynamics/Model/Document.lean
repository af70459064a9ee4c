import SystemDynamics.Model.Horizon

namespace SystemDynamics

inductive Kind where
  | stock | flow | parameter | auxiliary
  deriving DecidableEq, Repr

def Kind.name : Kind → String
  | stock => "stock"
  | flow => "flow"
  | parameter => "parameter"
  | auxiliary => "auxiliary"

/-- An accumulation. Its initial value may be missing until the document is validated. -/
structure Stock where
  id : String := ""
  name : String := ""
  initialValue : Option Float := none
  unit : String := "units"
  description : Option String := none
  deriving DecidableEq

/-- A rate that drains one stock and fills another; a missing end lies outside the model. -/
structure Flow where
  id : String := ""
  name : String := ""
  source : Option String := none
  target : Option String := none
  equation : String := ""
  unit : String := "units/time"
  description : Option String := none
  deriving DecidableEq

structure Parameter where
  id : String := ""
  name : String := ""
  value : Option Float := none
  unit : String := ""
  description : Option String := none
  deriving DecidableEq

structure Auxiliary where
  id : String := ""
  name : String := ""
  equation : String := ""
  unit : String := ""
  description : Option String := none
  deriving DecidableEq

/-- A model as it is submitted. Nothing holds of it before it is validated. -/
structure Document where
  company : Option String := none
  name : String := ""
  description : String := ""
  stocks : List Stock := []
  flows : List Flow := []
  parameters : List Parameter := []
  auxiliaries : List Auxiliary := []
  horizon : Option Horizon := none
  deriving DecidableEq

namespace Document

variable (d : Document)

def declared : List (Kind × String) :=
  d.stocks.map (fun s ↦ (.stock, s.id)) ++ d.flows.map (fun f ↦ (.flow, f.id)) ++
    d.parameters.map (fun p ↦ (.parameter, p.id)) ++ d.auxiliaries.map (fun a ↦ (.auxiliary, a.id))

def ids : List String :=
  d.declared.map (·.2)

/-- Every equation with the id of its owner: flows, then auxiliaries. -/
def equations : List (String × String) :=
  d.flows.map (fun f ↦ (f.id, f.equation)) ++ d.auxiliaries.map (fun a ↦ (a.id, a.equation))

def stock? (id : String) : Option Stock :=
  d.stocks.find? (·.id == id)

def flow? (id : String) : Option Flow :=
  d.flows.find? (·.id == id)

def parameter? (id : String) : Option Parameter :=
  d.parameters.find? (·.id == id)

def auxiliary? (id : String) : Option Auxiliary :=
  d.auxiliaries.find? (·.id == id)

end Document

end SystemDynamics
