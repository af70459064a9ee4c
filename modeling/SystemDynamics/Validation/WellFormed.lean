import SystemDynamics.Validation.Violation

namespace SystemDynamics.Validation

def exceeds (most : Nat) (text : String) : Bool :=
  most < text.length

def isOutside (least most : Nat) (text : String) : Bool :=
  text.length < least || exceeds most text

def hasIdShape (id : String) : Bool :=
  match id.toList with
  | [] => false
  | c :: rest => c.isLower && rest.all fun c ↦ c.isLower || c.isDigit || c == '_'

def isReserved (id : String) : Bool :=
  timeNames.contains id || Equation.isBuiltin id

def violated (condition : Bool) (v : Violation) : List Violation :=
  if condition then [v] else []

variable (w : World) (d : Document)

def modelFields : List Violation :=
  (d.company.toList.flatMap fun company ↦
    violated (!Text.sameLetters (Text.trim company) w.name) (.company company w.name)) ++
  violated (isOutside 1 maxNameLength d.name) (.modelNameLength d.name.length) ++
  violated (isOutside minModelDescriptionLength maxModelDescriptionLength d.description)
    (.modelDescriptionLength d.description.length)

def countsOf (kind : Kind) (least count : Nat) : List Violation :=
  violated (count < least || w.maxCount kind < count)
    (.count w.name kind least (w.maxCount kind) count)

def counts : List Violation :=
  countsOf w .stock 1 d.stocks.length ++ countsOf w .flow 1 d.flows.length ++
    countsOf w .parameter 0 d.parameters.length ++ countsOf w .auxiliary 0 d.auxiliaries.length

def idDefects (id : String) : List Defect :=
  (if isOutside 1 maxIdLength id then [.idLength id.length]
    else if hasIdShape id then [] else [.idShape]) ++
  if isReserved id then [.reservedId] else []

def defects (id name unit : String) (description : Option String) : List Defect :=
  idDefects id ++
  (if isOutside 1 maxNameLength name then [.nameLength] else []) ++
  (if exceeds maxUnitLength unit then [.unitLength] else []) ++
  if description.any (exceeds maxDescriptionLength) then [.descriptionLength] else []

def stockViolations (s : Stock) : List Violation :=
  (defects s.id s.name s.unit s.description).map (.declaration .stock s.id) ++
  match s.initialValue with
  | none => [.noInitialValue s.id]
  | some x => violated (!x.isFinite || x < 0) (.initialValue s.id x)

def flowViolations (f : Flow) : List Violation :=
  (defects f.id f.name f.unit f.description).map (.declaration .flow f.id)

def parameterViolations (p : Parameter) : List Violation :=
  (defects p.id p.name p.unit p.description).map (.declaration .parameter p.id) ++
  match p.value with
  | none => [.noValue p.id]
  | some x => violated (!x.isFinite) (.parameterValue p.id x)

def auxiliaryViolations (a : Auxiliary) : List Violation :=
  (defects a.id a.name a.unit a.description).map (.declaration .auxiliary a.id)

def declarations : List Violation :=
  d.stocks.flatMap stockViolations ++ d.flows.flatMap flowViolations ++
    d.parameters.flatMap parameterViolations ++ d.auxiliaries.flatMap auxiliaryViolations

/-- Every declaration of an id that was declared before, with the kind it had at first. -/
def repetitions (before : List (String × Kind)) : List (Kind × String) → List Violation
  | [] => []
  | (kind, id) :: rest =>
    if id.isEmpty then repetitions before rest
    else
      match before.lookup id with
      | some first => .repeatedId id first kind :: repetitions before rest
      | none => repetitions ((id, kind) :: before) rest

def flowEnds (f : Flow) : List Violation :=
  match f.source, f.target with
  | none, none => [.noEnds f.id]
  | some source, some target => violated (source == target) (.sameEnds f.id source)
  | _, _ => []

/-- Names that are not declared are left to the rule on references. -/
def equationForm (owner equation : String) : List Violation :=
  if (Text.trim equation).isEmpty || exceeds maxEquationLength equation then
    [.equationLength owner equation.length]
  else
    match Equation.parse equation with
    | .ok _ => []
    | .error (.unknown name) => violated (d.ids.contains name) (.variableCalled owner name)
    | .error fault => [.malformedEquation owner fault]

def timeBounds (h : Horizon) : List Violation :=
  if !(h.start.isFinite && h.stop.isFinite && h.step.isFinite) then [.unboundedTime h]
  else
    violated (h.start < 0) (.startBeforeZero h.start) ++
    violated (h.stop ≤ h.start) (.stopNotAfterStart h.stop h.start) ++
    violated (h.step ≤ 0 || 1 < h.step) (.stepOutOfRange h.step)

def wellFormed : List Violation :=
  modelFields w d ++ counts w d ++ declarations d ++ repetitions [] d.declared ++
    d.flows.flatMap flowEnds ++ (d.equations.flatMap fun (owner, e) ↦ equationForm d owner e) ++
    d.horizon.toList.flatMap timeBounds

end SystemDynamics.Validation
