import SystemDynamics.CommandLine.Response

namespace SystemDynamics.CommandLine

def Command.reads : Command → List String
  | .domains | .schema _ | .examples _ => []
  | .validate t | .simulate t .. | .sensitivity t .. | .trace t .. => [t.file]
  | .compare t scenarios => [t.file, scenarios]

def readFile? (path : String) : IO (Option String) := do
  match ← (IO.FS.readFile path).toBaseIO with
  | .ok text => return some text
  | .error _ => return none

def load (paths : List String) : IO Files := do
  let texts ← paths.mapM fun path ↦ return (path, ← readFile? path)
  return ⟨fun path ↦ (texts.lookup path).join, fun _ ↦ true⟩

def print (r : Response) : IO UInt32 := do
  IO.print r.output
  if let some why := r.failure then IO.eprintln ("Error: " ++ why.message)
  return r.status.toUInt32

/-- Writes the file of a response before anything is printed. -/
def carryOut (r : Response) : IO UInt32 := do
  match r.written with
  | none => print r
  | some (file, text) =>
    match ← (IO.FS.writeFile file text).toBaseIO with
    | .ok _ => print r
    | .error _ => print (.failed (.unwritten file) "")

def run (words : List String) : IO UInt32 := do
  let setting ← IO.getEnv Limits.setting
  match Request.ofWords words setting with
  | .ok request => carryOut (request.respond (← load request.command.reads))
  | .error halt =>
    match halt.response setting with
    | .ok r => print r
    | .error why =>
      IO.eprintln ("error: " ++ why.message)
      return 2

end SystemDynamics.CommandLine

def main (words : List String) : IO UInt32 :=
  SystemDynamics.CommandLine.run words
