import SystemDynamics.Analysis.Sensitivity
import SystemDynamics.Catalog.Example
import SystemDynamics.CommandLine.Help
import SystemDynamics.CommandLine.Request
import SystemDynamics.Domain.Exchange
import SystemDynamics.Report.Table
import SystemDynamics.Report.Trace
import SystemDynamics.Report.Violations

namespace SystemDynamics.CommandLine

open Json (Value)
open Number (Spelling fixed)

structure Files where
  text? : String → Option String
  isWritable : String → Bool

inductive Failure where
  | unreadModel (file : String)
  | rejected (violations : List Violation)
  | run (why : RunError)
  | sweep (why : SweepError)
  | unreadScenarios (file : String)
  | malformedScenarios
  | unwritten (file : String)
  | unknownDomain (name : String)
  | unknownExample (id : String)

def Failure.message : Failure → String
  | unreadModel file => "Failed to load model document " ++ Text.quotedPath file
  | rejected vs => "model rejected with " ++ rejectionCount vs
  | run why => why.message
  | sweep why => why.message
  | unreadScenarios file => "Failed to read scenarios " ++ Text.quotedPath file
  | malformedScenarios => "Failed to parse scenarios as JSON"
  | unwritten file => "Failed to write result to " ++ Text.quotedPath file
  | unknownDomain name => Domain.unknownMessage name
  | unknownExample id => "No example named '" ++ id ++ "'"

structure Response where
  output : String := ""
  failure : Option Failure := none
  /-- A file that is written, and its text. -/
  written : Option (String × String) := none

namespace Response

def status (r : Response) : Nat :=
  if r.failure.isSome then 1 else 0

def failed (why : Failure) (output : String) : Response :=
  { output, failure := some why }

def json (v : Value) : Response :=
  { output := v.pretty ++ "\n" }

end Response

def Halt.response (setting : Option String) : Halt → Except UsageError Response
  | misuse why => .error why
  | help command => .ok { output := helpText command setting }
  | version => .ok { output := versionText }

/-- What an answer is built from: a model, or the response that there is none. -/
abbrev Answer := Except Response

def orFail {α ε : Type} (a : Except ε α) (why : ε → Failure) : Answer α :=
  a.mapError fun e ↦ .failed (why e) ""

def orElseFail {α : Type} (a : Option α) (why : Failure) : Answer α :=
  a.elim (.error (.failed why "")) .ok

def rejection (asJson : Bool) (vs : List Violation) : String :=
  if asJson then (Value.list (vs.map (·.toJson))).pretty ++ "\n" else violationsText vs

variable (files : Files)

def Target.load (t : Target) (asJson : Bool) : Answer Model := do
  let text ← orElseFail (files.text? t.file) (.unreadModel t.file)
  let d ← orFail (Document.ofJson text) fun _ ↦ .unreadModel t.file
  (SystemDynamics.validate t.domain d).mapError fun vs ↦
    .failed (.rejected vs) (rejection asJson vs)

def domainsResponse (asJson : Bool) : Response :=
  if asJson then
    .json (.list (Domain.all.map fun d ↦ textList [d.world.name, d.world.description]))
  else
    { output := String.join (Domain.all.map fun d ↦
        Text.padRight 12 d.world.name ++ " " ++ d.world.description ++ "\n") }

def examplesResponse (asJson : Bool) : Response :=
  if asJson then .json (.list (Example.all.map (·.toJson)))
  else
    { output := String.join (Example.all.map fun e ↦
        Text.padRight 20 e.id ++ " " ++ Text.padRight 12 e.domain.name ++ " " ++ e.title ++ "\n") }

def validateResponse (m : Model) (asJson : Bool) : Response :=
  if asJson then
    .json (.object [("domain", .text m.domain.name), ("name", .text m.document.name),
      ("valid", .bool true)])
  else
    { output := "OK: '" ++ m.document.name ++ "' is a valid " ++ m.domain.name ++ " model\n" }

def simulateResponse (r : Trajectory) (every : Nat) (asJson : Bool) : Response :=
  if asJson then .json r.toJson
  else
    { output := r.settings.modelName ++ " (" ++ toString r.points ++ " points)\n" ++
        r.table every }

/-- Of every run the first and the last point. -/
def outcomeText (o : Outcome) : String :=
  match o.result with
  | .ok r => "== " ++ o.scenario.name ++ " ==\n" ++ r.table (max r.points 1 - 1)
  | .error e => "== " ++ o.scenario.name ++ " == FAILED: " ++ e.message ++ "\n"

def finalStocks (r : Trajectory) : String :=
  "  ".intercalate (r.stocks.entries.map fun (id, xs) ↦ id ++ "=" ++ fixed 3 (xs.getLastD 0))

def sweepLine (parameter : String) (value : Float) (o : Outcome) : String :=
  parameter ++ "=" ++ Text.padRight 12 (Spelling.sentence.write value) ++ " " ++
    (match o.result with
      | .ok r => finalStocks r
      | .error e => "FAILED: " ++ e.message) ++ "\n"

def sensitivityResponse (s : Sensitivity) (asJson : Bool) : Response :=
  if asJson then .json s.toJson
  else { output := String.join (List.zipWith (sweepLine s.parameter) s.values s.runs) }

namespace Request

variable (request : Request)

def limit : Nat :=
  request.limits.maxGridPoints

def answer : Answer Response :=
  match request.command with
  | .domains => return domainsResponse request.asJson
  | .schema name => do
    let domain ← orElseFail (Domain.ofName? name) (.unknownDomain name)
    return .json domain.world.toJson
  | .validate target => do
    return validateResponse (← target.load files request.asJson) request.asJson
  | .simulate target overrides output every => do
    let m ← target.load files request.asJson
    let r ← orFail (m.simulate overrides request.limit) .run
    let response := simulateResponse r every request.asJson
    match output with
    | none => return response
    | some file =>
      if files.isWritable file then return { response with written := some (file, r.pretty) }
      else return .failed (.unwritten file) ""
  | .compare target scenarios => do
    let m ← target.load files request.asJson
    let text ← orElseFail (files.text? scenarios) (.unreadScenarios scenarios)
    let scenarios ← orFail (Scenario.listOfJson text) fun _ ↦ .malformedScenarios
    let outcomes := m.compare scenarios request.limit
    if request.asJson then return .json (outcomesToJson outcomes)
    else return { output := String.join (outcomes.map outcomeText) }
  | .sensitivity target parameter first last steps => do
    let m ← target.load files request.asJson
    let s ← orFail (m.sensitivity parameter first last steps request.limit) .sweep
    return sensitivityResponse s request.asJson
  | .trace target name point overrides => do
    let m ← target.load files false
    let r ← orFail (m.simulate overrides request.limit) .run
    return { output := m.traceText r name point }
  | .examples none => return examplesResponse request.asJson
  | .examples (some id) => do
    let e ← orElseFail (Example.ofId? id) (.unknownExample id)
    return { output := e.text ++ "\n" }

def respond : Response :=
  match request.answer files with
  | .ok r => r
  | .error r => r

end Request

end SystemDynamics.CommandLine
