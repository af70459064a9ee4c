import SystemDynamics.Domain.Basic
import SystemDynamics.Simulation.Program

namespace SystemDynamics

open SystemDynamics.Number (Spelling)

namespace Validation

def maxIdLength : Nat := 50
def maxNameLength : Nat := 100
def maxUnitLength : Nat := 30
def maxDescriptionLength : Nat := 200
def maxEquationLength : Nat := 500
def minModelDescriptionLength : Nat := 10
def maxModelDescriptionLength : Nat := 500

/-- The shape of an id: a small letter, then small letters, digits and underscores. -/
def idPattern : String := "^[a-z][a-z0-9_]*$"

/-- The names of the time, which every equation can read. -/
def timeNames : List String := ["time", "t"]

/-- What is wrong with the texts of a declaration, whatever its kind. -/
inductive Defect where
  | idLength (length : Nat)
  | idShape
  | reservedId
  | nameLength
  | unitLength
  | descriptionLength
  deriving DecidableEq

inductive Side where
  | source
  | target
  deriving DecidableEq

def Side.name : Side → String
  | source => "from_stock"
  | target => "to_stock"

def Side.of (f : Flow) : Side → Option String
  | source => f.source
  | target => f.target

end Validation

open Validation

inductive ViolationKind where
  | structural
  | idNotAllowed
  | unknownReference
  | forbiddenEdge
  | forbiddenWord
  | missingIntermediate
  | missingDependency
  | cycle
  | unknownDomain
  deriving DecidableEq

def ViolationKind.name : ViolationKind → String
  | structural => "structural_error"
  | idNotAllowed => "identifier_not_allowed"
  | unknownReference => "unknown_reference"
  | forbiddenEdge => "forbidden_edge"
  | forbiddenWord => "forbidden_function"
  | missingIntermediate => "missing_mandatory_intermediate"
  | missingDependency => "missing_required_dependency"
  | cycle => "dependency_cycle"
  | unknownDomain => "unknown_domain"

inductive Violation where
  | company (declared domain : String)
  | modelNameLength (length : Nat)
  | modelDescriptionLength (length : Nat)
  | count (domain : String) (kind : Kind) (least most count : Nat)
  | declaration (kind : Kind) (id : String) (defect : Defect)
  | noInitialValue (stock : String)
  | initialValue (stock : String) (value : Float)
  | noValue (parameter : String)
  | parameterValue (parameter : String) (value : Float)
  | repeatedId (id : String) (first again : Kind)
  | noEnds (flow : String)
  | sameEnds (flow stock : String)
  | equationLength (owner : String) (length : Nat)
  | variableCalled (owner name : String)
  | malformedEquation (owner : String) (fault : Equation.Fault)
  | unboundedTime (horizon : Horizon)
  | startBeforeZero (start : Float)
  | stopNotAfterStart (stop start : Float)
  | stepOutOfRange (step : Float)
  | notAllowed (kind : Kind) (id domain : String) (allowed : List String)
  | unknownStock (flow : String) (side : Side) (stock : String)
  | unknownNames (owner : String) (names : List String)
  | functionsAsValues (owner : String) (names : List String)
  | forbiddenWords (owner : String) (words : List String)
  | forbiddenEdge (flow source target domain : String)
  | missingIntermediate (flow : String) (source : Option String) (target via : String)
  | missingDependency (flow : String) (stocks : List String)
  | cycle (ids : List String)
  | noOrder (cycles : List (List String))
  | noProgram (why : CompileError)
  | unknownDomain (name : String)

namespace Violation

def kind : Violation → ViolationKind
  | notAllowed .. => .idNotAllowed
  | unknownStock .. | unknownNames .. | functionsAsValues .. => .unknownReference
  | forbiddenWords .. => .forbiddenWord
  | forbiddenEdge .. => .forbiddenEdge
  | missingIntermediate .. => .missingIntermediate
  | missingDependency .. => .missingDependency
  | cycle .. | noOrder .. => .cycle
  | unknownDomain .. => .unknownDomain
  | _ => .structural

/-- What a declaration is called where its id may be missing. -/
def label (id : String) : String :=
  if id.isEmpty then "<missing id>" else id

def between (least most : Nat) : String :=
  toString least ++ "-" ++ toString most

def quote (name : String) : String :=
  "'" ++ name ++ "'"

def commas (names : List String) : String :=
  ", ".intercalate names

def defectMessage (kind : Kind) (id : String) : Defect → String
  | .idLength length =>
    kind.name ++ " id must be " ++ between 1 maxIdLength ++ " characters, got " ++ toString length
  | .idShape => kind.name ++ " id " ++ quote id ++ " does not match " ++ idPattern
  | .reservedId => kind.name ++ " id " ++ quote id ++ " is a reserved name"
  | .nameLength =>
    kind.name ++ " " ++ quote (label id) ++ " name must be " ++ between 1 maxNameLength ++
      " characters"
  | .unitLength =>
    kind.name ++ " " ++ quote (label id) ++ " unit exceeds " ++ toString maxUnitLength ++
      " characters"
  | .descriptionLength =>
    kind.name ++ " " ++ quote (label id) ++ " description exceeds " ++
      toString maxDescriptionLength ++ " characters"

def message : Violation → String
  | company declared domain =>
    "model declares company " ++ quote declared ++ " but is validated as " ++ quote domain
  | modelNameLength length =>
    "model name must be " ++ between 1 maxNameLength ++ " characters, got " ++ toString length
  | modelDescriptionLength length =>
    "model description must be " ++ between minModelDescriptionLength maxModelDescriptionLength ++
      " characters, got " ++ toString length
  | count domain kind least most n =>
    "a " ++ domain ++ " model declares " ++ between least most ++ " " ++ kind.name ++
      " entries, got " ++ toString n
  | declaration kind id defect => defectMessage kind id defect
  | noInitialValue stock => "stock " ++ quote stock ++ " has no initial_value"
  | initialValue stock x =>
    "stock " ++ quote stock ++ " initial_value must be finite and >= 0, got " ++
      Spelling.sentence.write x
  | noValue parameter => "parameter " ++ quote parameter ++ " has no value"
  | parameterValue parameter x =>
    "parameter " ++ quote parameter ++ " value must be finite, got " ++ Spelling.sentence.write x
  | repeatedId id first again =>
    "id " ++ quote id ++ " is declared more than once (as " ++ first.name ++ " and as " ++
      again.name ++ ")"
  | noEnds flow =>
    "flow " ++ quote flow ++ " has neither from_stock nor to_stock and would move nothing"
  | sameEnds flow stock =>
    "flow " ++ quote flow ++ " drains and fills the same stock " ++ quote stock
  | equationLength owner length =>
    "equation of " ++ quote owner ++ " must be " ++ between 1 maxEquationLength ++
      " characters, got " ++ toString length
  | variableCalled owner name =>
    "equation of " ++ quote owner ++ " calls " ++ quote name ++
      ", which is a variable, not a function"
  | malformedEquation owner fault =>
    "equation of " ++ quote owner ++ " is malformed: " ++ fault.message
  | unboundedTime h =>
    "time bounds must be finite, got start=" ++ Spelling.sentence.write h.start ++ " end=" ++
      Spelling.sentence.write h.stop ++ " dt=" ++ Spelling.sentence.write h.step
  | startBeforeZero x => "time.start must be >= 0, got " ++ Spelling.sentence.write x
  | stopNotAfterStart stop start =>
    "time.end (" ++ Spelling.sentence.write stop ++ ") must be greater than time.start (" ++
      Spelling.sentence.write start ++ ")"
  | stepOutOfRange x => "time.dt must be in (0, 1], got " ++ Spelling.sentence.write x
  | notAllowed kind id domain _ =>
    kind.name ++ " " ++ quote id ++ " is not allowed in the " ++ domain ++ " domain"
  | unknownStock flow side stock =>
    "flow " ++ quote flow ++ " " ++ side.name ++ " " ++ quote stock ++ " is not a declared stock"
  | unknownNames owner names =>
    "equation of " ++ quote owner ++ " references unknown identifiers: " ++ commas names
  | functionsAsValues owner names =>
    "equation of " ++ quote owner ++ " uses functions as values: " ++ commas names
  | forbiddenWords owner words =>
    "equation of " ++ quote owner ++ " uses forbidden names: " ++ commas words
  | forbiddenEdge flow source target domain =>
    "flow " ++ quote flow ++ " connects " ++ quote source ++ " to " ++ quote target ++
      ", which the " ++ domain ++ " domain forbids"
  | missingIntermediate flow source target via =>
    "flow " ++ quote flow ++ " fills " ++ quote target ++ " from " ++
      source.getD "outside the model" ++ "; it must pass through " ++ quote via
  | missingDependency flow stocks =>
    "flow " ++ quote flow ++ " must depend on " ++ commas stocks
  | cycle ids => "equations depend on each other in a cycle: " ++ " -> ".intercalate ids
  | noOrder _ => "equations depend on each other in a cycle"
  | noProgram why => why.message
  | unknownDomain name => Domain.unknownMessage name

def offender? : Violation → Option String
  | company .. => some "company"
  | modelNameLength _ => some "name"
  | modelDescriptionLength _ => some "description"
  | count .. => none
  | declaration _ id _ => some (label id)
  | noInitialValue id | initialValue id _ | noValue id | parameterValue id _ => some id
  | repeatedId id _ _ => some id
  | noEnds id | sameEnds id _ => some id
  | equationLength owner _ | variableCalled owner _ | malformedEquation owner _ => some owner
  | unboundedTime _ | startBeforeZero _ | stopNotAfterStart .. | stepOutOfRange _ => some "time"
  | notAllowed _ id _ _ => some id
  | unknownStock flow _ _ => some flow
  | unknownNames owner _ | functionsAsValues owner _ | forbiddenWords owner _ => some owner
  | forbiddenEdge flow _ _ _ | missingIntermediate flow _ _ _ | missingDependency flow _ =>
    some flow
  | cycle ids => ids.head?
  | noOrder _ | noProgram _ => none
  | unknownDomain name => some name

def related : Violation → List String
  | notAllowed _ _ _ allowed => allowed
  | unknownStock _ _ stock => [stock]
  | unknownNames _ names | functionsAsValues _ names | forbiddenWords _ names => names
  | forbiddenEdge _ source target _ => [source, target]
  | missingIntermediate _ _ target via => [target, via]
  | missingDependency _ stocks => stocks
  | cycle ids => ids
  | noOrder cycles => cycles.flatten
  | unknownDomain _ => Domain.names
  | _ => []

end Violation

end SystemDynamics
