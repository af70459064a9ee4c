import SystemDynamics.Validation.Reference

namespace SystemDynamics.Validation

open Dependency (Graph)

variable (w : World) (d : Document)

def edges : List Violation :=
  d.flows.flatMap fun f ↦
    match f.source, f.target with
    | some source, some target =>
      violated (w.forbids source target) (.forbiddenEdge f.id source target w.name)
    | _, _ => []

def intermediates : List Violation :=
  w.mandatoryIntermediates.flatMap fun rule ↦
    d.flows.flatMap fun f ↦
      violated (f.target == some rule.target && f.source != some rule.via)
        (.missingIntermediate f.id f.source rule.target rule.via)

def requirements (g : Graph) : List Violation :=
  w.requiredDependencies.flatMap fun rule ↦
    if (d.flow? rule.flow).isNone then []
    else
      listed (rule.stocks.filter fun stock ↦ !g.dependsOn rule.flow stock)
        (.missingDependency rule.flow)

def cycles (g : Graph) : List Violation :=
  g.cycles.map .cycle

end SystemDynamics.Validation
