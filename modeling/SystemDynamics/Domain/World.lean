import SystemDynamics.Model.Document

namespace SystemDynamics

/-- Flows into `target` have to come from `via`. -/
structure MandatoryIntermediate where
  target : String
  via : String
  deriving DecidableEq

/-- The equation of a flow has to depend on every one of these stocks. -/
structure RequiredDependency where
  flow : String
  stocks : List String
  deriving DecidableEq

structure World where
  name : String
  description : String
  /-- Areas of the domain, for guidance only. -/
  areas : List String
  stockIds : List String
  flowIds : List String
  parameterIds : List String
  auxiliaryIds : List String
  forbiddenEdges : List (String × String)
  mandatoryIntermediates : List MandatoryIntermediate
  requiredDependencies : List RequiredDependency
  /-- The horizon of a model that says nothing of its own. -/
  horizon : Horizon

namespace World

variable (w : World)

def allowedIds : Kind → List String
  | .stock => w.stockIds
  | .flow => w.flowIds
  | .parameter => w.parameterIds
  | .auxiliary => w.auxiliaryIds

def allows (kind : Kind) (id : String) : Bool :=
  (w.allowedIds kind).contains id

def forbids (source target : String) : Bool :=
  w.forbiddenEdges.contains (source, target)

def maxCount (kind : Kind) : Nat :=
  (w.allowedIds kind).length

end World

end SystemDynamics
