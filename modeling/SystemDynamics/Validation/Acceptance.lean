import SystemDynamics.Validation.Causality

namespace SystemDynamics

open Dependency (Graph)

structure Model where
  domain : Domain
  /-- The document with its company and its horizon filled in. -/
  document : Document
  horizon : Horizon
  program : Program

namespace Validation

def violations (w : World) (d : Document) : List Violation :=
  let g := Graph.ofDocument d
  wellFormed w d ++ closedWorld w d ++ flowReferences d ++ equationReferences d ++
    equationWords d ++ edges w d ++ intermediates w d ++ requirements w d g ++ cycles g

/-- The program of a document. One without violations has none where an equation calls the time. -/
def program (d : Document) : Except Violation Program := do
  let order ← (Graph.ofDocument d).evaluationOrder.mapError .noOrder
  (d.compile order).mapError .noProgram

end Validation

namespace Domain

def complete (domain : Domain) (d : Document) : Document :=
  { d with
    company := some domain.name
    horizon := some (d.horizon.getD domain.world.horizon) }

def validate (domain : Domain) (d : Document) : Except (List Violation) Model :=
  match Validation.violations domain.world d with
  | [] =>
    match Validation.program d with
    | .ok program =>
      .ok ⟨domain, domain.complete d, d.horizon.getD domain.world.horizon, program⟩
    | .error v => .error [v]
  | vs => .error vs

end Domain

def validate (domain : String) (d : Document) : Except (List Violation) Model :=
  match Domain.ofName? domain with
  | some domain => domain.validate d
  | none => .error [.unknownDomain domain]

end SystemDynamics
