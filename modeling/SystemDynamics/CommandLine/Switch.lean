import SystemDynamics.Number.Reading
import SystemDynamics.Text.Blank

namespace SystemDynamics.CommandLine

inductive UsageError where
  | unknownOption (word : String)
  | noValue (option : String)
  | needlessValue (option : String)
  | repeatedOption (option : String)
  | badValue (name value : String)
  | missing (name : String)
  | surplus (word : String)
  | noCommand
  | unknownCommand (name : String)
  deriving DecidableEq

def UsageError.message : UsageError → String
  | unknownOption word => "unknown option " ++ word
  | noValue option => "--" ++ option ++ " needs a value"
  | needlessValue option => "--" ++ option ++ " takes no value"
  | repeatedOption option => "--" ++ option ++ " is given more than once"
  | badValue name value => "'" ++ value ++ "' is no value for " ++ name
  | missing name => name ++ " is missing"
  | surplus word => "nothing is known of '" ++ word ++ "'"
  | noCommand => "a command is missing"
  | unknownCommand name => "there is no command '" ++ name ++ "'"

/-- What a command line comes to that is no request. -/
inductive Halt where
  | misuse (why : UsageError)
  | help (command : Option String)
  | version
  deriving DecidableEq

def misuse {α : Type} (why : UsageError) : Except Halt α :=
  .error (.misuse why)

/-- An id and a value around the first equals sign. -/
def override? (text : String) : Option (String × Float) :=
  let id := text.toList.takeWhile (· != '=')
  match text.toList.drop id.length with
  | '=' :: value =>
    (Number.ofText? (Text.trim (String.ofList value))).map (Text.trim (String.ofList id), ·)
  | _ => none

inductive Form where
  | text
  /-- A text that is not empty. -/
  | path
  | natural
  | float
  | override
  deriving DecidableEq

def Form.accepts : Form → String → Bool
  | text, _ => true
  | path, value => !value.isEmpty
  | natural, value => (Number.natural? value).isSome
  | float, value => (Number.ofText? value).isSome
  | override, value => (override? value).isSome

inductive Effect where
  | flag
  | value (form : Form)
  | halt (why : Halt)
  deriving DecidableEq

structure Switch where
  name : String
  letter : Option Char := none
  effect : Effect := .value .text
  isRequired : Bool := false
  mayRepeat : Bool := false
  /-- The value that counts if none is given. -/
  unsaid : Option Nat := none
  /-- The setting of the environment that counts if no value is given. -/
  setting : Option String := none
  /-- What stands for the value in the help. -/
  placeholder : Option String := none
  about : String := ""
  deriving DecidableEq

namespace Switch

variable (s : Switch)

def takesValue : Bool :=
  match s.effect with
  | .value _ => true
  | _ => false

def accepts (value : String) : Bool :=
  match s.effect with
  | .value form => form.accepts value
  | _ => true

end Switch

structure Operand where
  name : String
  form : Form := .text
  isRequired : Bool := true
  mayRepeat : Bool := false
  about : String := ""
  deriving DecidableEq

end SystemDynamics.CommandLine
