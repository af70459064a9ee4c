import SystemDynamics.Domain.World
import SystemDynamics.Model.Exchange

namespace SystemDynamics

open Json (Value)

def textList (texts : List String) : Value :=
  .list (texts.map .text)

def MandatoryIntermediate.toJson (m : MandatoryIntermediate) : Value :=
  .object [("target", .text m.target), ("via", .text m.via)]

def RequiredDependency.toJson (r : RequiredDependency) : Value :=
  .object [("flow", .text r.flow), ("stocks", textList r.stocks)]

def World.toJson (w : World) : Value :=
  .object [("name", .text w.name), ("description", .text w.description),
    ("areas", textList w.areas), ("stock_ids", textList w.stockIds),
    ("flow_ids", textList w.flowIds), ("parameter_ids", textList w.parameterIds),
    ("auxiliary_ids", textList w.auxiliaryIds),
    ("forbidden_edges", .list (w.forbiddenEdges.map fun e ↦ textList [e.1, e.2])),
    ("mandatory_intermediates", .list (w.mandatoryIntermediates.map (·.toJson))),
    ("required_dependencies", .list (w.requiredDependencies.map (·.toJson))),
    ("default_time", w.horizon.toJson)]

end SystemDynamics
