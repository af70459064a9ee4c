import SystemDynamics.CommandLine.Response
import SystemDynamics.Proofs.Report.Trace

namespace SystemDynamics.CommandLine

/-- The status that a command line ends with; misuse has one of its own. -/
def exitStatus (files : Files) (words : List String) (setting : Option String) : Nat :=
  match Request.ofWords words setting with
  | .ok request => (request.respond files).status
  | .error halt =>
    match halt.response setting with
    | .ok r => r.status
    | .error _ => 2

variable (files : Files)

/-- The file holds a document that is accepted for the domain. -/
def Target.Gives (t : Target) (m : Model) : Prop :=
  ∃ text d, files.text? t.file = some text ∧ Document.ofJson text = .ok d ∧
    SystemDynamics.validate t.domain d = .ok m

namespace Request

variable (request : Request)

/-- What is asked for is done: all that is named is found, what is read is accepted, the run ends
without an error, and a file that is to be written holds it. -/
def Done : Prop :=
  match request.command with
  | .domains => True
  | .schema name => ∃ domain, Domain.ofName? name = some domain
  | .validate target => ∃ m, target.Gives files m
  | .simulate target overrides output _ => ∃ m r, target.Gives files m ∧
      m.simulate overrides request.limit = .ok r ∧ ∀ file ∈ output,
        files.isWritable file ∧ (request.respond files).written = some (file, r.pretty)
  | .compare target scenarios => ∃ m text ss, target.Gives files m ∧
      files.text? scenarios = some text ∧ Scenario.listOfJson text = .ok ss
  | .sensitivity target parameter first last steps => ∃ m s, target.Gives files m ∧
      m.sensitivity parameter first last steps request.limit = .ok s
  | .trace target name point overrides => ∃ m r, target.Gives files m ∧
      m.simulate overrides request.limit = .ok r ∧ name ∈ m.document.ids ∧ point < r.points
  | .examples id => ∀ name ∈ id, ∃ e, Example.ofId? name = some e

/-- A trace is asked for of a variable that is not declared, or at a point that is not on the grid,
in a run that ends without an error. -/
def Untraced : Prop :=
  match request.command with
  | .trace target name point overrides => ∃ m r, target.Gives files m ∧
      m.simulate overrides request.limit = .ok r ∧ ¬(name ∈ m.document.ids ∧ point < r.points)
  | _ => False

end Request

theorem orFail_eq_ok {α ε : Type} {a : Except ε α} {why : ε → Failure} {x : α} :
    orFail a why = .ok x ↔ a = .ok x :=
  Except.mapError_eq_ok

theorem orElseFail_eq_ok {α : Type} {a : Option α} {why : Failure} {x : α} :
    orElseFail a why = .ok x ↔ a = some x := by
  cases a <;> simp [orElseFail]

def Admits {α : Type} (a : Answer α) : Prop :=
  ∀ r, a = .error r → r.status = 1

namespace Admits

variable {α β : Type}

theorem ok (x : α) : Admits (.ok x) := by
  intro r h
  cases h

theorem bind {a : Answer α} {f : α → Answer β} (h : Admits a) (hf : ∀ x, Admits (f x)) :
    Admits (a >>= f) := by
  intro r hr
  rcases Except.bind_eq_error.mp hr with hr | ⟨x, -, hr⟩
  · exact h r hr
  · exact hf x r hr

theorem orFail {ε : Type} (a : Except ε α) (why : ε → Failure) :
    Admits (CommandLine.orFail a why) := by
  intro r hr
  obtain ⟨e, -, rfl⟩ := Except.mapError_eq_error.mp hr
  rfl

theorem orElseFail (a : Option α) (why : Failure) : Admits (CommandLine.orElseFail a why) := by
  intro r hr
  cases a with
  | none =>
    obtain rfl := Except.error.inj hr
    rfl
  | some x => cases hr

theorem load (files : Files) (t : Target) (asJson : Bool) : Admits (t.load files asJson) := by
  refine (orElseFail _ _).bind fun text ↦ (orFail _ _).bind fun d r hr ↦ ?_
  obtain ⟨vs, -, rfl⟩ := Except.mapError_eq_error.mp hr
  rfl

theorem answer (files : Files) (request : Request) : Admits (request.answer files) := by
  rw [Request.answer]
  cases request.command with
  | domains => exact ok _
  | schema name => exact (orElseFail _ _).bind fun d ↦ ok _
  | validate target => exact (load files target _).bind fun m ↦ ok _
  | simulate target overrides output every =>
    refine (load files target _).bind fun m ↦ (orFail _ _).bind fun r ↦ ?_
    cases output with
    | none => exact ok _
    | some file =>
      dsimp only
      split
      · exact ok _
      · exact ok _
  | compare target scenarios =>
    refine (load files target _).bind fun m ↦ (orElseFail _ _).bind fun text ↦
      (orFail _ _).bind fun ss ↦ ?_
    dsimp only
    split
    · exact ok _
    · exact ok _
  | sensitivity target parameter first last steps =>
    exact (load files target _).bind fun m ↦ (orFail _ _).bind fun s ↦ ok _
  | trace target name point overrides =>
    exact (load files target _).bind fun m ↦ (orFail _ _).bind fun r ↦ ok _
  | examples id =>
    cases id with
    | none => exact ok _
    | some name => exact (orElseFail _ _).bind fun e ↦ ok _

end Admits

theorem Target.load_eq_ok {files : Files} {t : Target} (asJson : Bool) {m : Model} :
    t.load files asJson = .ok m ↔ t.Gives files m := by
  simp only [Target.load, Target.Gives, Except.bind_eq_ok, orElseFail_eq_ok, orFail_eq_ok,
    Except.mapError_eq_ok]
  constructor
  · intro h
    obtain ⟨text, htext, d, hd, hm⟩ := h
    exact ⟨text, d, htext, hd, hm⟩
  · intro h
    obtain ⟨text, d, htext, hd, hm⟩ := h
    exact ⟨text, htext, d, hd, hm⟩

theorem Target.Gives.unique {files : Files} {t : Target} {m m' : Model} (h : t.Gives files m)
    (h' : t.Gives files m') : m = m' := by
  rw [← load_eq_ok false] at h h'
  exact Except.ok.inj (h.symm.trans h')

@[simp] theorem domainsResponse_failure {asJson : Bool} :
    (domainsResponse asJson).failure = none := by
  cases asJson <;> rfl

@[simp] theorem examplesResponse_failure {asJson : Bool} :
    (examplesResponse asJson).failure = none := by
  cases asJson <;> rfl

@[simp] theorem validateResponse_failure {m : Model} {asJson : Bool} :
    (validateResponse m asJson).failure = none := by
  cases asJson <;> rfl

@[simp] theorem simulateResponse_failure {r : Trajectory} {every : Nat} {asJson : Bool} :
    (simulateResponse r every asJson).failure = none := by
  cases asJson <;> rfl

@[simp] theorem sensitivityResponse_failure {s : Sensitivity} {asJson : Bool} :
    (sensitivityResponse s asJson).failure = none := by
  cases asJson <;> rfl

theorem Response.status_eq_zero {r : Response} : r.status = 0 ↔ r.failure = none := by
  rw [Response.status]
  cases r.failure <;> simp

/-- An answer that there is, and that tells of no failure. -/
def Succeeds (a : Answer Response) : Prop :=
  ∃ r, a = .ok r ∧ r.failure = none

@[simp] theorem succeeds_pure {r : Response} : Succeeds (pure r) ↔ r.failure = none := by
  simp [Succeeds, Except.pure_eq_ok]

@[simp] theorem succeeds_bind {α : Type} {a : Answer α} {f : α → Answer Response} :
    Succeeds (a >>= f) ↔ ∃ x, a = .ok x ∧ Succeeds (f x) := by
  simp only [Succeeds, Except.bind_eq_ok]
  constructor
  · intro h
    obtain ⟨r, ⟨x, hx, hr⟩, hnone⟩ := h
    exact ⟨x, hx, r, hr, hnone⟩
  · intro h
    obtain ⟨x, hx, r, hr, hnone⟩ := h
    exact ⟨r, ⟨x, hx, hr⟩, hnone⟩

@[simp] theorem succeeds_map {α : Type} {a : Answer α} {f : α → Response} :
    Succeeds (f <$> a) ↔ ∃ x, a = .ok x ∧ (f x).failure = none := by
  rw [map_eq_pure_bind, succeeds_bind]
  simp only [succeeds_pure]

namespace Request

variable {files : Files} {request : Request}

theorem status_respond_eq_zero :
    (request.respond files).status = 0 ↔ Succeeds (request.answer files) := by
  rw [respond]
  cases h : request.answer files with
  | ok r => simp [Succeeds, Response.status_eq_zero]
  | error r => simp [Succeeds, Admits.answer files request r h]

theorem written_simulate {target : Target} {overrides : NameMap Float} {file : String} {every : Nat}
    (h : request.command = .simulate target overrides (some file) every) {m : Model}
    (hm : target.Gives files m) {r : Trajectory}
    (hr : m.simulate overrides request.limit = .ok r) (hfile : files.isWritable file) :
    (request.respond files).written = some (file, r.pretty) := by
  have hload := (Target.load_eq_ok request.asJson).mpr hm
  have hrun : orFail (m.simulate overrides request.limit) .run = .ok r := orFail_eq_ok.mpr hr
  simp only [respond, answer, h, hload, hrun, bind, Except.bind, hfile, if_true]
  rfl

/-- An answer without a failure is what is asked for, except for traces. -/
theorem succeeds_answer :
    Succeeds (request.answer files) ↔ request.Done files ∨ request.Untraced files := by
  rw [answer, Done, Untraced]
  cases hcommand : request.command with
  | domains => simp
  | schema name => simp [orElseFail_eq_ok, Response.json]
  | validate target => simp [Target.load_eq_ok]
  | simulate target overrides output every =>
    simp only [succeeds_bind, Target.load_eq_ok, orFail_eq_ok, or_false, exists_and_left]
    refine exists_congr fun m ↦ and_congr_right fun hm ↦ exists_congr fun r ↦
      and_congr_right fun hr ↦ ?_
    cases output with
    | none => simp
    | some file =>
      cases hfile : files.isWritable file with
      | false => simp [hfile, Response.failed]
      | true => simp [hfile, written_simulate hcommand hm hr hfile]
  | compare target scenarios =>
    have hanswer : ∀ os, Succeeds (if request.asJson then return .json (outcomesToJson os)
        else return { output := String.join (os.map outcomeText) }) := by
      intro os
      cases request.asJson <;> simp [Response.json]
    simp [Target.load_eq_ok, orFail_eq_ok, orElseFail_eq_ok, hanswer]
  | sensitivity target parameter first last steps => simp [Target.load_eq_ok, orFail_eq_ok]
  | trace target name point overrides =>
    simp only [succeeds_bind, succeeds_pure, Target.load_eq_ok, orFail_eq_ok, ← exists_or,
      ← and_or_left, em]
    simp
  | examples id =>
    cases id with
    | none => simp
    | some name => simp [orElseFail_eq_ok]

theorem Untraced.not_done (h : request.Untraced files) : ¬request.Done files := by
  rw [Untraced] at h
  rw [Done]
  cases hcommand : request.command with
  | trace target name point overrides =>
    simp only [hcommand] at h ⊢
    intro hdone
    obtain ⟨m, r, hm, hr, hnot⟩ := h
    obtain ⟨m', r', hm', hr', htraced⟩ := hdone
    obtain rfl := hm.unique hm'
    rw [hr] at hr'
    obtain rfl := Except.ok.inj hr'
    exact hnot htraced
  | _ => simp [hcommand] at h

theorem Untraced.exists_output (h : request.Untraced files) :
    ∃ why, (request.respond files).output = "Error: " ++ why := by
  rw [Untraced] at h
  cases hcommand : request.command with
  | trace target name point overrides =>
    simp only [hcommand] at h
    obtain ⟨m, r, hm, hr, hnot⟩ := h
    have hload := (Target.load_eq_ok false).mpr hm
    have hrun : orFail (m.simulate overrides request.limit) .run = .ok r := orFail_eq_ok.mpr hr
    obtain ⟨why, hwhy⟩ := Model.exists_traceText_eq_error hnot
    refine ⟨why, ?_⟩
    simp only [respond, answer, hcommand, hload, hrun, bind, Except.bind]
    exact hwhy
  | _ => simp [hcommand] at h

end Request

/-- The status of a request is zero just if what is asked for is done, or is a trace that cannot be
had; then it is not done, and what is printed is an error. -/
theorem exitStatus_eq_zero_iff (files : Files) (words : List String) (setting : Option String)
    (request : Request) (h : Request.ofWords words setting = .ok request) :
    (exitStatus files words setting = 0 ↔ request.Done files ∨ request.Untraced files) ∧
      (request.Untraced files →
        ¬request.Done files ∧ ∃ why, (request.respond files).output = "Error: " ++ why) := by
  constructor
  · rw [exitStatus, h]
    exact Request.status_respond_eq_zero.trans Request.succeeds_answer
  · intro huntraced
    exact ⟨huntraced.not_done, huntraced.exists_output⟩

def revenueFiles : Files where
  text? path := if path = "m.json" then some text else none
  isWritable _ := false
where
  text : String :=
    "\x7b\"name\": \"Revenue\", \"description\": \"Revenue fills the cash reserves.\", " ++
      "\"stocks\": [\x7b\"id\": \"cash_reserves\", \"name\": \"Cash\", " ++
      "\"initial_value\": 1\x7d], " ++
      "\"flows\": [\x7b\"id\": \"revenue\", \"name\": \"Revenue\", " ++
      "\"to_stock\": \"cash_reserves\", \"equation\": \"1\"\x7d], " ++
      "\"time\": \x7b\"start\": 0, \"end\": 1, \"dt\": 1, \"unit\": \"months\"\x7d\x7d"

def revenueTrace (name : String) : Request :=
  { command := .trace ⟨"aerodin", "m.json"⟩ name 0 .empty }

theorem revenueFiles_run :
    ∃ m r, Target.Gives revenueFiles ⟨"aerodin", "m.json"⟩ m ∧
      m.simulate .empty ({} : Limits).maxGridPoints = .ok r ∧
      m.document.ids = ["cash_reserves", "revenue"] ∧ r.points = 2 := by
  have hsome : (Target.load revenueFiles ⟨"aerodin", "m.json"⟩ false).toOption.bind (fun m ↦
      (m.simulate .empty ({} : Limits).maxGridPoints).toOption.map fun r ↦
        (m.document.ids, r.points)) = some (["cash_reserves", "revenue"], 2) := by
    decide +kernel
  obtain ⟨m, hm, hsome⟩ := Option.bind_eq_some_iff.mp hsome
  obtain ⟨r, hr, hsome⟩ := Option.map_eq_some_iff.mp hsome
  rw [Except.toOption_eq_some] at hm hr
  obtain ⟨hids, hpoints⟩ := Prod.mk.inj hsome
  exact ⟨m, r, (Target.load_eq_ok false).mp hm, hr, hids, hpoints⟩

/-- The cash reserves are traced. -/
theorem exitStatus_eq_zero_iff_revenue :
    Request.ofWords ["trace", "-d", "aerodin", "m.json", "--variable", "cash_reserves"] none =
        .ok (revenueTrace "cash_reserves") ∧
      (revenueTrace "cash_reserves").Done revenueFiles ∧
      exitStatus revenueFiles ["trace", "-d", "aerodin", "m.json", "--variable", "cash_reserves"]
        none = 0 := by
  have hwords : Request.ofWords ["trace", "-d", "aerodin", "m.json", "--variable", "cash_reserves"]
      none = .ok (revenueTrace "cash_reserves") := by
    decide +kernel
  obtain ⟨m, r, hm, hr, hids, hpoints⟩ := revenueFiles_run
  have hdone : (revenueTrace "cash_reserves").Done revenueFiles := by
    refine ⟨m, r, hm, hr, ?_, ?_⟩
    · rw [hids]
      decide
    · rw [hpoints]
      decide
  exact ⟨hwords, hdone, (exitStatus_eq_zero_iff revenueFiles _ none _ hwords).1.mpr (.inl hdone)⟩

/-- Nothing is traced where no such variable is declared, and the status is zero. -/
theorem ghost_trace_ends_with_zero :
    Request.ofWords ["trace", "-d", "aerodin", "m.json", "--variable", "ghost"] none =
        .ok (revenueTrace "ghost") ∧
      exitStatus revenueFiles ["trace", "-d", "aerodin", "m.json", "--variable", "ghost"] none = 0 ∧
      ¬(revenueTrace "ghost").Done revenueFiles := by
  have hwords : Request.ofWords ["trace", "-d", "aerodin", "m.json", "--variable", "ghost"] none =
      .ok (revenueTrace "ghost") := by
    decide +kernel
  obtain ⟨m, r, hm, hr, hids, -⟩ := revenueFiles_run
  have huntraced : (revenueTrace "ghost").Untraced revenueFiles := by
    refine ⟨m, r, hm, hr, fun htraced ↦ ?_⟩
    rw [hids] at htraced
    exact absurd htraced.1 (by decide)
  refine ⟨hwords, ?_, huntraced.not_done⟩
  rw [exitStatus, hwords]
  exact Request.status_respond_eq_zero.mpr (Request.succeeds_answer.mpr (.inr huntraced))

end SystemDynamics.CommandLine
