import SystemDynamics.CommandLine.Switch

namespace SystemDynamics.CommandLine

structure Given where
  options : List (String × String) := []
  operands : List String := []
  deriving DecidableEq

namespace Given

variable (g : Given)

def has (name : String) : Bool :=
  (g.options.lookup name).isSome

def value? (s : Switch) : Option String :=
  g.options.lookup s.name

def values (s : Switch) : List String :=
  (g.options.filter (·.1 == s.name)).map (·.2)

def addOption (s : Switch) (value : String) : Except Halt Given :=
  if !s.mayRepeat && g.has s.name then misuse (.repeatedOption s.name)
  else if !s.accepts value then misuse (.badValue s.name value)
  else .ok { g with options := g.options ++ [(s.name, value)] }

def addOperand (o : Operand) (value : String) : Except Halt Given :=
  if !o.form.accepts value then misuse (.badValue o.name value)
  else .ok { g with operands := g.operands ++ [value] }

end Given

inductive Pending where
  | valueless (s : Switch)
  | option (s : Switch) (value : String)
  | operand (o : Operand) (value : String)
  deriving DecidableEq

structure Progress where
  given : Given := {}
  pending : Option Pending := none
  /-- The operands that may still come. -/
  expected : List Operand := []
  deriving DecidableEq

namespace Progress

def settle (p : Progress) : Except Halt Progress := do
  let given ← match p.pending with
    | none => .ok p.given
    | some (.valueless s) => misuse (.noValue s.name)
    | some (.option s value) => p.given.addOption s value
    | some (.operand o value) => p.given.addOperand o value
  return { p with given, pending := none }

def waiting? (p : Progress) : Option Switch :=
  match p.pending with
  | some (.valueless s) => some s
  | _ => none

def operand (p : Progress) (word : String) : Except Halt Progress :=
  match p.expected with
  | [] => misuse (.surplus word)
  | o :: expected => do return { ← p.settle with pending := some (.operand o word), expected }

def option (p : Progress) (s : Switch) (attached : Option String) : Except Halt Progress := do
  let p ← p.settle
  match s.effect, attached with
  | .value _, some value => return { p with given := ← p.given.addOption s value }
  | .value _, none => return { p with pending := some (.valueless s) }
  | _, some _ => misuse (.needlessValue s.name)
  | .flag, none => return { p with given := ← p.given.addOption s "" }
  | .halt why, none => .error why

variable (known : List Switch)

/-- Letters after one dash: flags, and last an option with its value. -/
def letters : List Char → Progress → Except Halt Progress
  | [], p => .ok p
  | c :: rest, p =>
    match known.find? (·.letter == some c) with
    | none => misuse (.unknownOption ("-" ++ c.toString))
    | some s =>
      if !s.takesValue then do letters rest (← p.option s none)
      else
        match rest with
        | [] => p.option s none
        | '=' :: value | value => p.option s (some (String.ofList value))

def dashed (p : Progress) (word : String) : Except Halt Progress :=
  match word.toList with
  | '-' :: '-' :: rest =>
    let name := String.ofList (rest.takeWhile (· != '='))
    match known.find? (·.name == name) with
    | none => misuse (.unknownOption ("--" ++ name))
    | some s => p.option s ((rest.dropWhile (· != '=')).tail?.map String.ofList)
  | rest => letters known rest.tail p

end Progress

def looksLikeOption (word : String) : Bool :=
  word.startsWith "-" && word != "-"

open Progress

/-- Reads options up to the first word that is neither an option nor the value of one, and gives
back the words from there on. -/
def readOptions (known : List Switch) :
    List String → Progress → Except Halt (Progress × List String)
  | [], p => .ok (p, [])
  | word :: rest, p =>
    if word = "--" then do return (← rest.foldlM operand p, [])
    else if looksLikeOption word then do readOptions known rest (← p.dashed known word)
    else
      match p.waiting? with
      | some s => readOptions known rest { p with pending := some (.option s word) }
      | none => .ok (p, word :: rest)

def readAll (known : List Switch) : List String → Progress → Except Halt Progress
  | [], p => p.settle
  | word :: rest, p =>
    if word = "--" then do (← rest.foldlM operand p).settle
    else if looksLikeOption word then do readAll known rest (← p.dashed known word)
    else
      match p.waiting? with
      | some s => readAll known rest { p with pending := some (.option s word) }
      | none => do readAll known rest (← p.operand word)

end SystemDynamics.CommandLine
