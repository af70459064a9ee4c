import SystemDynamics.CommandLine.Words
import SystemDynamics.Simulation.Limits

namespace SystemDynamics.CommandLine

def verboseSwitch : Switch :=
  { name := "verbose", letter := some 'v', effect := .flag, about := "Enable debug logging" }

def jsonSwitch : Switch :=
  { name := "json", effect := .flag, about := "Emit command output and log lines as JSON" }

def limitSwitch : Switch where
  name := "max-grid-points"
  effect := .value .natural
  unsaid := some ({} : Limits).maxGridPoints
  setting := some Limits.setting
  about := "Refuse runs whose time grid exceeds this many points"

def commonSwitches : List Switch :=
  [verboseSwitch, jsonSwitch, limitSwitch]

def helpSwitch (command : Option String) : Switch :=
  { name := "help", letter := some 'h', effect := .halt (.help command), about := "Print help" }

def versionSwitch : Switch :=
  { name := "version", letter := some 'V', effect := .halt .version, about := "Print version" }

def programSwitches : List Switch :=
  commonSwitches ++ [helpSwitch none, versionSwitch]

def domainSwitch : Switch where
  name := "domain"
  letter := some 'd'
  isRequired := true
  about := "Domain name (see `sdsim domains`)"

def overrideSwitch : Switch where
  name := "set"
  effect := .value .override
  mayRepeat := true
  placeholder := some "ID=VALUE"
  about := "Parameter override, repeatable"

def outputSwitch : Switch where
  name := "output"
  letter := some 'o'
  effect := .value .path
  about := "Write the full result as JSON to this file"

def everySwitch : Switch where
  name := "every"
  effect := .value .natural
  unsaid := some 1
  about := "Print every n-th grid point in the table"

def scenariosSwitch : Switch where
  name := "scenarios"
  letter := some 's'
  effect := .value .path
  isRequired := true
  about := "JSON array of `\x7b\"name\": .., \"parameters\": \x7b..\x7d\x7d`"

def parameterSwitch : Switch where
  name := "parameter"
  letter := some 'p'
  isRequired := true
  about := "Parameter id to sweep"

def firstSwitch : Switch :=
  { name := "min", effect := .value .float, isRequired := true }

def lastSwitch : Switch :=
  { name := "max", effect := .value .float, isRequired := true }

def stepsSwitch : Switch :=
  { name := "steps", effect := .value .natural, unsaid := some 5 }

def variableSwitch : Switch :=
  { name := "variable", isRequired := true, about := "Variable id to trace" }

def pointSwitch : Switch :=
  { name := "index", effect := .value .natural, unsaid := some 0, about := "Grid point index" }

def fileOperand : Operand :=
  { name := "file", form := .path, about := "Path to the model document (JSON)" }

def commandOperand : Operand where
  name := "command"
  isRequired := false
  mayRepeat := true
  about := "Print help for the subcommand(s)"

structure Usage where
  name : String
  about : String
  /-- The options of no other command. -/
  own : List Switch := []
  operands : List Operand := []
  deriving DecidableEq

namespace Usage

def all : List Usage := [
  { name := "domains", about := "List the supported domains" },
  { name := "schema"
    about := "Print a domain's allowed identifiers and structural constraints"
    operands := [{ name := "domain", about := "Domain name" }] },
  { name := "validate"
    about := "Validate a model document"
    own := [domainSwitch]
    operands := [fileOperand] },
  { name := "simulate"
    about := "Validate and simulate a model document"
    own := [domainSwitch, overrideSwitch, outputSwitch, everySwitch]
    operands := [fileOperand] },
  { name := "compare"
    about := "Run named parameter scenarios side by side"
    own := [domainSwitch, scenariosSwitch]
    operands := [fileOperand] },
  { name := "sensitivity"
    about := "Sweep one parameter over an inclusive range"
    own := [domainSwitch, parameterSwitch, firstSwitch, lastSwitch, stepsSwitch]
    operands := [fileOperand] },
  { name := "trace"
    about := "Show a variable's dependency tree with values at one grid point"
    own := [domainSwitch, variableSwitch, pointSwitch, overrideSwitch]
    operands := [fileOperand] },
  { name := "examples"
    about := "List the built-in example models, or print one"
    operands := [{ name := "id", isRequired := false, about := "Example id" }] }]

/-- The command that prints help; all words after its name are names of commands. -/
def help : Usage where
  name := "help"
  about := "Print this message or the help of the given subcommand(s)"
  operands := [commandOperand]

def ofName? (name : String) : Option Usage :=
  all.find? (·.name == name)

variable (u : Usage)

def switches : List Switch :=
  commonSwitches ++ u.own ++ [helpSwitch (some u.name)]

def read (words : List String) : Except Halt Given := do
  return (← readAll u.switches words { expected := u.operands }).given

end Usage

end SystemDynamics.CommandLine
