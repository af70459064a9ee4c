import SystemDynamics.CommandLine.Usage
import SystemDynamics.NameMap

namespace SystemDynamics.CommandLine

structure Target where
  domain : String
  file : String
  deriving DecidableEq

inductive Command where
  | domains
  | schema (domain : String)
  | validate (target : Target)
  | simulate (target : Target) (overrides : NameMap Float) (output : Option String) (every : Nat)
  | compare (target : Target) (scenarios : String)
  | sensitivity (target : Target) (parameter : String) (first last : Float) (steps : Nat)
  | trace (target : Target) (name : String) (point : Nat) (overrides : NameMap Float)
  | examples (id : Option String)
  deriving DecidableEq

structure Request where
  command : Command
  isVerbose : Bool := false
  asJson : Bool := false
  limits : Limits := {}
  deriving DecidableEq

def readValue {α : Type} (read : String → Option α) (s : Switch) (value : String) :
    Except Halt α :=
  match read value with
  | some a => .ok a
  | none => misuse (.badValue s.name value)

namespace Given

variable (g : Given)

def required (s : Switch) : Except Halt String :=
  match g.value? s with
  | some value => .ok value
  | none => misuse (.missing s.name)

def natural (s : Switch) : Except Halt Nat :=
  match g.value? s, s.unsaid with
  | some value, _ => readValue Number.natural? s value
  | none, some n => .ok n
  | none, none => misuse (.missing s.name)

def float (s : Switch) : Except Halt Float := do
  readValue Number.ofText? s (← g.required s)

/-- Of several overrides of one parameter the last counts. -/
def overrides : Except Halt (NameMap Float) := do
  return NameMap.ofList
    (← (g.values overrideSwitch).mapM (readValue override? overrideSwitch))

def operand (name : String) : Except Halt String :=
  match g.operands with
  | word :: _ => .ok word
  | [] => misuse (.missing name)

def target : Except Halt Target := do
  return ⟨← g.required domainSwitch, ← g.operand fileOperand.name⟩

def command : (name : String) → Except Halt Command
  | "domains" => return .domains
  | "schema" => do return .schema (← g.operand "domain")
  | "validate" => do return .validate (← g.target)
  | "simulate" => do
    return .simulate (← g.target) (← g.overrides) (g.value? outputSwitch) (← g.natural everySwitch)
  | "compare" => do return .compare (← g.target) (← g.required scenariosSwitch)
  | "sensitivity" => do
    return .sensitivity (← g.target) (← g.required parameterSwitch) (← g.float firstSwitch)
      (← g.float lastSwitch) (← g.natural stepsSwitch)
  | "trace" => do
    return .trace (← g.target) (← g.required variableSwitch) (← g.natural pointSwitch)
      (← g.overrides)
  | "examples" => return .examples g.operands.head?
  | name => misuse (.unknownCommand name)

end Given

/-- What is said after the name of the command counts before what is said before it, and both before
the setting. Unless both are said the setting is read too, and must be a number. -/
def limitsOf (before after : Given) (setting : Option String) : Except Halt Limits := do
  let read := readValue Number.natural? limitSwitch
  let said ← ([after, before].filterMap (·.value? limitSwitch)).mapM read
  let unused := 2 ≤ said.length
  let set ← (setting.filter fun _ ↦ !unused).mapM read
  return ⟨(said ++ set.toList).headD ({} : Limits).maxGridPoints⟩

def helpOn : List String → Halt
  | [] => .help none
  | [name] =>
    if ((Usage.all ++ [Usage.help]).map (·.name)).contains name then .help (some name)
    else .misuse (.unknownCommand name)
  | _ :: word :: _ => .misuse (.surplus word)

/-- Reads the words after the name of the program, given the setting of the environment. What stands
before the name of the command is checked to its end only after what stands behind it. -/
def Request.ofWords (words : List String) (setting : Option String) : Except Halt Request := do
  let (before, rest) ← readOptions programSwitches words {}
  match rest with
  | [] => misuse .noCommand
  | name :: words =>
    if name = Usage.help.name then .error (helpOn words)
    else do
      let some usage := Usage.ofName? name | misuse (.unknownCommand name)
      let after ← usage.read words
      let before := (← before.settle).given
      return {
        command := ← after.command name
        isVerbose := before.has verboseSwitch.name || after.has verboseSwitch.name
        asJson := before.has jsonSwitch.name || after.has jsonSwitch.name
        limits := ← limitsOf before after setting }

end SystemDynamics.CommandLine
