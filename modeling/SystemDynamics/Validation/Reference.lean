import SystemDynamics.Validation.ForbiddenWord
import SystemDynamics.Validation.WellFormed

namespace SystemDynamics.Validation

variable (w : World) (d : Document)

def closedWorld : List Violation :=
  d.declared.flatMap fun (kind, id) ↦
    violated (!id.isEmpty && !w.allows kind id) (.notAllowed kind id w.name (w.allowedIds kind))

def flowReferences : List Violation :=
  d.flows.flatMap fun f ↦
    [Side.source, Side.target].flatMap fun side ↦
      (side.of f).toList.flatMap fun stock ↦
        violated ((d.stock? stock).isNone) (.unknownStock f.id side stock)

def unknownNames (equation : String) : List String :=
  NameMap.distinct ((namesIn equation).filter fun name ↦
    !d.ids.contains name && !timeNames.contains name && !Equation.isBuiltin name)

def functionsRead (equation : String) : List String :=
  match Equation.parse equation with
  | .ok term => term.distinctNames.filter fun name ↦ Equation.isBuiltin name && !d.ids.contains name
  | .error _ => []

def listed (names : List String) (v : List String → Violation) : List Violation :=
  violated (!names.isEmpty) (v names)

def equationReferences : List Violation :=
  d.equations.flatMap fun (owner, equation) ↦
    listed (unknownNames d equation) (.unknownNames owner) ++
      listed (functionsRead d equation) (.functionsAsValues owner)

def equationWords : List Violation :=
  d.equations.flatMap fun (owner, equation) ↦
    listed (forbiddenIn equation) (.forbiddenWords owner)

end SystemDynamics.Validation
