import SystemDynamics.Proofs.Simulation.Walk

namespace SystemDynamics.RungeKutta

variable {α σ ε β γ : Type}

/-- What a step works on. -/
structure Memory (σ α : Type) where
  /-- The state of the machine that gives the rates. -/
  machine : σ
  buffers : RungeKutta α
  state : List α

/-- Commands that change a memory. What was written before a failure stays. -/
abbrev Command (σ α ε : Type) := ExceptT ε (StateM (Memory σ α))

def Command.perform (x : Command σ α ε β) (m : Memory σ α) : Except ε β × Memory σ α :=
  x.run.run m

theorem Command.perform_bind (x : Command σ α ε β) (f : β → Command σ α ε γ) (m : Memory σ α) :
    (x >>= f).perform m =
      match x.perform m with
      | (.ok b, m) => (f b).perform m
      | (.error e, m) => (.error e, m) := by
  unfold perform ExceptT.run StateT.run
  simp only [bind, ExceptT.bind, ExceptT.mk, StateT.bind, ExceptT.bindCont]
  rcases x m with ⟨e | b, m⟩ <;> rfl

/-- Has the rates at a time and a vector of the memory written into a buffer. -/
def takeRates (rate : MachineRate σ α ε) (t : α) (y : Memory σ α → List α) (b : Buffer) :
    Command σ α ε Unit := do
  let m ← get
  let (machine, k, failure) := rate m.machine t (y m) (m.buffers.read b)
  set { m with machine, buffers := m.buffers.write k b }
  match failure with
  | none => pure ()
  | some e => throw e

theorem perform_takeRates (rate : MachineRate σ α ε) (t : α) (y : Memory σ α → List α) (b : Buffer)
    (m : Memory σ α) :
    (takeRates rate t y b).perform m =
      match rate m.machine t (y m) (m.buffers.read b) with
      | (machine, k, none) => (.ok (), { m with machine, buffers := m.buffers.write k b })
      | (machine, k, some e) => (.error e, { m with machine, buffers := m.buffers.write k b }) := by
  have hrun : (takeRates rate t y b).perform m =
      let (machine, k, failure) := rate m.machine t (y m) (m.buffers.read b)
      (match failure with
        | none => pure ()
        | some e => throw e : Command σ α ε Unit).perform
        { m with machine, buffers := m.buffers.write k b } := rfl
  rw [hrun]
  rcases rate m.machine t (y m) (m.buffers.read b) with ⟨machine, k, _ | e⟩ <;> rfl

/-- Rates that are `k`, unless they fail. -/
def Gives (k : α → List α → List α) (n : Nat) (rate : MachineRate σ α ε) : Prop :=
  ∀ w t y buffer, y.length = n → buffer.length = n →
    match rate w t y buffer with
    | (_, written, none) => written = k t y
    | (_, written, some _) => written.length = n

namespace Gives

variable {k : α → List α → List α} {n : Nat} {rate : MachineRate σ α ε} (hr : Gives k n rate)
  {w w' : σ} {t : α} {y buffer written : List α} (hy : y.length = n) (hbuffer : buffer.length = n)

include hr hy hbuffer

theorem written_eq (hrate : rate w t y buffer = (w', written, none)) : written = k t y := by
  have h := hr w t y buffer hy hbuffer
  rwa [hrate] at h

theorem length_written {e : ε} (hrate : rate w t y buffer = (w', written, some e)) :
    written.length = n := by
  have h := hr w t y buffer hy hbuffer
  rwa [hrate] at h

end Gives

/-- A step that was tried: its length, the error it ended in, the state before and after it. -/
structure Attempt (α ε : Type) where
  length : α
  failure : Option ε
  before : List α
  after : List α

/-- The attempts that did not fail. -/
def successes (as : List (Attempt α ε)) : List (Attempt α ε) :=
  as.filter (·.failure.isNone)

section

variable [Add α] [Mul α]

def setProbe (scale : α) (b : Buffer) : Command σ α ε Unit :=
  modify fun m ↦
    let probe := offset scale m.buffers.probe m.state (m.buffers.read b)
    { m with buffers := { m.buffers with probe } }

variable [Div α] [OfScientific α]

def setState (h : α) : Command σ α ε Unit :=
  modify fun m ↦
    let s := m.buffers
    { m with state := combine h m.state s.k1 s.k2 s.k3 s.k4 }

/-- One step from time `t`, in memory. -/
def stepInPlace (rate : MachineRate σ α ε) (t h : α) : Command σ α ε Unit := do
  let half := 0.5 * h
  takeRates rate t (·.state) .k1
  setProbe half .k1
  takeRates rate (t + half) (·.buffers.probe) .k2
  setProbe half .k2
  takeRates rate (t + half) (·.buffers.probe) .k3
  setProbe h .k3
  takeRates rate (t + h) (·.buffers.probe) .k4
  setState h

section

variable (rate : MachineRate σ α ε) (t h : α)

def stageInPlace (b : Buffer) : Command σ α ε Unit :=
  match b.source? with
  | none => takeRates rate (b.time t h) (·.state) b
  | some b' => do
    setProbe (b.reach h) b'
    takeRates rate (b.time t h) (·.buffers.probe) b

def stagesInPlace : List Buffer → Command σ α ε Unit
  | [] => pure ()
  | b :: todo => do
    stageInPlace rate t h b
    stagesInPlace todo

omit [Div α] in
theorem perform_stageInPlace (b : Buffer) (m : Memory σ α) :
    (stageInPlace rate t h b).perform m =
      match takeStage rate t h m.state b m.machine m.buffers with
      | (machine, buffers, none) => (.ok (), { m with machine, buffers })
      | (machine, buffers, some e) => (.error e, { m with machine, buffers }) := by
  have hprobe (scale : α) (b : Buffer) : (setProbe scale b : Command σ α ε Unit).perform m =
      (.ok (), { m with buffers := { m.buffers with
        probe := offset scale m.buffers.probe m.state (m.buffers.read b) } }) := rfl
  cases hsource : b.source? with
  | none =>
    rw [stageInPlace, takeStage, hsource, target_of_none hsource, aim_of_none hsource]
    dsimp only
    rw [perform_takeRates]
    rcases rate m.machine (b.time t h) m.state (m.buffers.read b) with ⟨machine, k, _ | e⟩ <;> rfl
  | some b' =>
    have hread := read_aim h m.state m.buffers b b
    rw [aim_of_some hsource] at hread
    rw [stageInPlace, takeStage, hsource, target_of_some hsource, aim_of_some hsource]
    simp only [Command.perform_bind, hprobe, perform_takeRates, hread]
    rcases rate m.machine (b.time t h) _ (m.buffers.read b) with ⟨machine, k, _ | e⟩ <;> rfl

omit [Div α] in
theorem perform_stagesInPlace (todo : List Buffer) (m : Memory σ α) :
    (stagesInPlace rate t h todo).perform m =
      match takeStages rate t h m.state todo m.machine m.buffers with
      | (machine, buffers, none) => (.ok (), { m with machine, buffers })
      | (machine, buffers, some e) => (.error e, { m with machine, buffers }) := by
  induction todo generalizing m with
  | nil => rfl
  | cons b todo ih =>
    rw [stagesInPlace, takeStages, Command.perform_bind, perform_stageInPlace]
    rcases takeStage rate t h m.state b m.machine m.buffers with ⟨machine, buffers, _ | e⟩
    · exact ih _
    · rfl

theorem stepInPlace_eq :
    stepInPlace rate t h = stagesInPlace rate t h order >>= fun _ ↦ setState h := by
  simp only [stepInPlace, stagesInPlace, stageInPlace, order, Buffer.source?, Buffer.time,
    Buffer.reach, bind_assoc, pure_bind]

/-- A step in memory changes the buffers as the step of an integrator does, and the state when all
is done. -/
theorem perform_stepInPlace (m : Memory σ α) :
    (stepInPlace rate t h).perform m =
      match m.buffers.stepWith rate m.machine t h m.state with
      | (machine, buffers, .ok state) => (.ok (), { machine, buffers, state })
      | (machine, buffers, .error e) => (.error e, { m with machine, buffers }) := by
  rw [stepInPlace_eq, Command.perform_bind, perform_stagesInPlace, stepWith_eq]
  rcases takeStages rate t h m.state order m.machine m.buffers with ⟨machine, buffers, _ | e⟩ <;>
    rfl

end

/-- Tries steps of the given lengths in one memory. A step that fails takes no time. -/
def attempts (rate : MachineRate σ α ε) :
    (lengths : List α) → (t : α) → Memory σ α → List (Attempt α ε) × Memory σ α
  | [], _, m => ([], m)
  | h :: lengths, t, m =>
    let (outcome, m') := (stepInPlace rate t h).perform m
    let (later, last) := attempts rate lengths (if outcome.toBool then t + h else t) m'
    (⟨h, outcome.error?, m.state, m'.state⟩ :: later, last)

variable (k : α → List α → List α)

/-- The states after steps of the given lengths, as the formula of the method has them. -/
def trail : (lengths : List α) → (t : α) → List α → List (List α)
  | [], _, _ => []
  | h :: lengths, t, y => advance k t h y :: trail lengths (t + h) (advance k t h y)

/-- The states after steps of the given lengths, each by an integrator of its own. -/
def anew : (lengths : List α) → (t : α) → List α → Except ε (List (List α))
  | [], _, _ => .ok []
  | h :: lengths, t, y => do
    let y ← ((ofDimension y.length).step (fun t y _ ↦ (k t y, none)) t h y).2
    return y :: (← anew lengths (t + h) y)

variable {k} {n : Nat}

variable (hk : ∀ t y, y.length = n → (k t y).length = n)

include hk

theorem anew_eq (lengths : List α) (t : α) {y : List α} (hy : y.length = n) :
    (anew k lengths t y : Except ε _) = .ok (trail k lengths t y) := by
  induction lengths generalizing t y with
  | nil => rfl
  | cons h lengths ih =>
    obtain ⟨s, hstep, -⟩ := stepWith_steady (ε := ε) hk (fits_ofDimension n) () t h hy
    have hfresh : ((ofDimension n).step (fun t y _ ↦ (k t y, (none : Option ε))) t h y).2 =
        .ok (advance k t h y) :=
      congrArg (·.2.2) hstep
    rw [anew, hy, hfresh, Except.ok_bind, ih _ (length_advance hk t h hy)]
    rfl

omit [Div α] in
theorem Reached.steady_of_gives {rate : MachineRate σ α ε} (hr : Gives k n rate) {s : RungeKutta α}
    (hs : s.Fits n) {w : σ} {t h : α} {y : List α} (hy : y.length = n) {i : Nat} {w₁ : σ}
    {s₁ : RungeKutta α} (hreached : Reached rate t h y w s i w₁ s₁) :
    s₁.Fits n ∧ Reached (steady k : MachineRate σ α ε) t h y w s i w s₁ := by
  induction hreached with
  | start => exact ⟨hs, .start⟩
  | @next b w₁ w₂ s₁ written _ hrate ih =>
    obtain ⟨hs₁, hreached⟩ := ih
    have htarget := hs₁.target h b hy
    obtain rfl := hr.written_eq htarget (hs₁.read b) hrate
    exact ⟨(hs₁.aim h b y).write (hk _ _ htarget) b, .next hreached rfl⟩

theorem stepWith_gives {rate : MachineRate σ α ε} (hr : Gives k n rate) {s : RungeKutta α}
    (hs : s.Fits n) (w : σ) (t h : α) {y : List α} (hy : y.length = n) :
    ∃ w' s' next, s.stepWith rate w t h y = (w', s', next) ∧ s'.Fits n ∧
      ∀ y', next = .ok y' → y' = advance k t h y := by
  rcases stepWith_cases rate t h y w s with
    ⟨w', s', hstep, hreached⟩ | ⟨b, w₁, s₁, w', written, e, hstep, hreached, hrate⟩
  · obtain ⟨hs', hsteady⟩ := hreached.steady_of_gives hk hr hs hy
    obtain ⟨_, hadvance, -⟩ := stepWith_steady (ε := ε) hk hs w t h hy
    rw [hsteady.stepWith_ok] at hadvance
    simp only [Prod.mk.injEq, Except.ok.injEq, true_and] at hadvance
    refine ⟨w', s', _, hstep, hs', ?_⟩
    intro y' hy'
    exact (Except.ok.inj hy').symm.trans hadvance.2
  · have hs₁ := (hreached.steady_of_gives hk hr hs hy).1
    have hwritten := hr.length_written (hs₁.target h b hy) (hs₁.read b) hrate
    exact ⟨w', _, _, hstep, (hs₁.aim h b y).write hwritten b, by simp⟩

/-- In memory, a step moves the state as the formula does, or it fails and leaves the state. -/
theorem stepInPlace_gives {rate : MachineRate σ α ε} (hr : Gives k n rate) {m : Memory σ α}
    (hs : m.buffers.Fits n) (t h : α) (hy : m.state.length = n) :
    ∃ outcome m', (stepInPlace rate t h).perform m = (outcome, m') ∧ m'.buffers.Fits n ∧
      ((outcome = .ok () ∧ m'.state = advance k t h m.state) ∨
        ∃ e, outcome = .error e ∧ m'.state = m.state) := by
  obtain ⟨w, s, next, hstep, hfits, hnext⟩ := stepWith_gives hk hr hs m.machine t h hy
  rw [perform_stepInPlace, hstep]
  cases next with
  | ok y' => exact ⟨_, _, rfl, hfits, .inl ⟨rfl, hnext y' rfl⟩⟩
  | error e => exact ⟨_, _, rfl, hfits, .inr ⟨e, rfl, rfl⟩⟩

/-- What attempts leave behind in a memory: each goes on where the one before it ended, those that
fail leave the state, and the others lead along the trail. -/
structure Forgets (k : α → List α → List α) (t : α) (m m' : Memory σ α)
    (as : List (Attempt α ε)) : Prop where
  chained : as.map (·.before) ++ [m'.state] = m.state :: as.map (·.after)
  unmoved : ∀ a ∈ as, a.failure.isSome = true → a.after = a.before
  states : (successes as).map (·.after) = trail k ((successes as).map (·.length)) t m.state

theorem attempts_forget {rate : MachineRate σ α ε} (hr : Gives k n rate) (lengths : List α) (t : α)
    {m : Memory σ α} (hs : m.buffers.Fits n) (hy : m.state.length = n) :
    ∃ as m', attempts rate lengths t m = (as, m') ∧ as.map (·.length) = lengths ∧
      Forgets k t m m' as := by
  induction lengths generalizing t m with
  | nil => exact ⟨[], m, rfl, rfl, rfl, by simp, rfl⟩
  | cons h lengths ih =>
    obtain ⟨outcome, m₁, hperform, hs₁, houtcome⟩ := stepInPlace_gives hk hr hs t h hy
    rw [attempts, hperform]
    rcases houtcome with ⟨rfl, hstate⟩ | ⟨e, rfl, hstate⟩
    · have hy₁ : m₁.state.length = n := hstate ▸ length_advance hk t h hy
      obtain ⟨as, m', hattempts, hlengths, hforgets⟩ := ih (t + h) hs₁ hy₁
      simp only [Except.toBool, if_true, hattempts]
      refine ⟨_, m', rfl, by rw [List.map_cons, hlengths], ?_, ?_, ?_⟩
      · rw [List.map_cons, List.cons_append, hforgets.chained, List.map_cons]
      · rw [List.forall_mem_cons]
        exact ⟨by simp [Except.error?], hforgets.unmoved⟩
      · have hstates := hforgets.states
        rw [hstate] at hstates
        simp only [successes] at hstates ⊢
        simp [Except.error?, trail, hstate, hstates]
    · obtain ⟨as, m', hattempts, hlengths, hforgets⟩ := ih t hs₁ (hstate ▸ hy)
      simp only [Except.toBool, Bool.false_eq_true, if_false, hattempts]
      refine ⟨_, m', rfl, by rw [List.map_cons, hlengths], ?_, ?_, ?_⟩
      · rw [List.map_cons, List.cons_append, hforgets.chained, List.map_cons]
      · rw [List.forall_mem_cons]
        exact ⟨fun _ ↦ hstate, hforgets.unmoved⟩
      · have hstates := hforgets.states
        rw [hstate] at hstates
        exact hstates

end

/-- An integrator that is used again and again forgets. Where the rates are `k` whenever they do not
fail, be it after they wrote in part, every step that fails leaves the state as it was; and the
states after the others are those of the formula, which integrators of their own give too for the
lengths of these steps alone, whatever the buffers held at first. -/
theorem reused_integrator_forgets [Add α] [Mul α] [Div α] [OfScientific α] (n : Nat)
    (k : α → List α → List α) (hk : ∀ t y, y.length = n → (k t y).length = n)
    (rate : MachineRate σ α ε) (hr : Gives k n rate) (s : RungeKutta α) (hs : s.Fits n) (w : σ)
    (t : α) (y : List α) (hy : y.length = n) (lengths : List α) :
    (∀ (t h : α) (m : Memory σ α), (stepInPlace rate t h).perform m =
      match m.buffers.stepWith rate m.machine t h m.state with
      | (machine, buffers, .ok state) => (.ok (), { machine, buffers, state })
      | (machine, buffers, .error e) => (.error e, { m with machine, buffers })) ∧
    ∃ as m, attempts rate lengths t ⟨w, s, y⟩ = (as, m) ∧ as.map (·.length) = lengths ∧
      as.map (·.before) ++ [m.state] = y :: as.map (·.after) ∧
      (∀ a ∈ as, a.failure.isSome = true → a.after = a.before) ∧
      (successes as).map (·.after) = trail k ((successes as).map (·.length)) t y ∧
      (anew k ((successes as).map (·.length)) t y : Except ε _) =
        .ok ((successes as).map (·.after)) := by
  refine ⟨perform_stepInPlace rate, ?_⟩
  obtain ⟨as, m, hattempts, hlengths, hforgets⟩ :=
    attempts_forget hk hr lengths t (m := ⟨w, s, y⟩) hs hy
  have hstates := hforgets.states
  exact ⟨as, m, hattempts, hlengths, hforgets.chained, hforgets.unmoved, hstates,
    by rw [anew_eq hk _ _ hy, hstates]⟩

def turning (t : Float) : List Float → List Float
  | [a, b] => [b, t - a]
  | y => y

/-- Rates that fail at the third call and at the ninth, after they wrote the first component. -/
def interrupted : MachineRate Nat Float String := fun calls t y buffer ↦
  if calls = 2 ∨ calls = 8 then (calls + 1, buffer.set 0 7, some "interrupted")
  else (calls + 1, turning t y, none)

theorem reused_integrator_forgets_interrupted :
    ∃ as m, attempts interrupted [1, 0.5, 0.25, 0.5] 0 ⟨0, ofDimension 2, [1, 0]⟩ = (as, m) ∧
      as.map (·.failure) = [some "interrupted", none, some "interrupted", none] ∧
      (∀ a ∈ as, a.failure.isSome = true → a.after = a.before) ∧
      (successes as).map (·.after) = trail turning [0.5, 0.5] 0 [1, 0] ∧
      (anew turning [0.5, 0.5] 0 [1, 0] : Except String _) =
        .ok ((successes as).map (·.after)) := by
  have hk : ∀ t y, y.length = 2 → (turning t y).length = 2 := by
    intro t y hy
    obtain ⟨a, b, rfl⟩ := List.length_eq_two.mp hy
    rfl
  have hr : Gives turning 2 interrupted := by
    intro w t y buffer hy hbuffer
    simp only [interrupted]
    split_ifs
    · simpa using hbuffer
    · rfl
  obtain ⟨-, as, m, hattempts, -, -, hunmoved, hstates, hanew⟩ :=
    reused_integrator_forgets 2 turning hk interrupted hr (ofDimension 2) (fits_ofDimension 2) 0 0
      [1, 0] rfl [1, 0.5, 0.25, 0.5]
  have hfailures : (attempts interrupted [1, 0.5, 0.25, 0.5] 0 ⟨0, ofDimension 2, [1, 0]⟩).1.map
      (·.failure) = [some "interrupted", none, some "interrupted", none] := by decide +kernel
  have hlengths : (successes (attempts interrupted [1, 0.5, 0.25, 0.5] 0
      ⟨0, ofDimension 2, [1, 0]⟩).1).map (·.length) = [0.5, 0.5] := by decide +kernel
  rw [hattempts] at hfailures hlengths
  rw [hlengths] at hstates hanew
  exact ⟨as, m, hattempts, hfailures, hunmoved, hstates, hanew⟩

end SystemDynamics.RungeKutta
