import SystemDynamics.Simulation.RungeKutta

namespace SystemDynamics.RungeKutta

variable {α σ ε : Type}

inductive Buffer where
  | k1 | k2 | k3 | k4
  deriving DecidableEq

def read (s : RungeKutta α) : Buffer → List α
  | .k1 => s.k1
  | .k2 => s.k2
  | .k3 => s.k3
  | .k4 => s.k4

def write (s : RungeKutta α) (k : List α) : Buffer → RungeKutta α
  | .k1 => { s with k1 := k }
  | .k2 => { s with k2 := k }
  | .k3 => { s with k3 := k }
  | .k4 => { s with k4 := k }

theorem read_write (s : RungeKutta α) (k : List α) (b b' : Buffer) :
    (s.write k b).read b' = if b' = b then k else s.read b' := by
  cases b <;> cases b' <;> rfl

namespace Buffer

def rank : Buffer → Nat
  | k1 => 0
  | k2 => 1
  | k3 => 2
  | k4 => 3

/-- The rates that lead to the state of a stage. The first is taken at the state itself. -/
def source? : Buffer → Option Buffer
  | k1 => none
  | k2 => some k1
  | k3 => some k2
  | k4 => some k3

theorem rank_inj {b b' : Buffer} (h : b.rank = b'.rank) : b = b' := by
  cases b <;> cases b' <;> first | rfl | cases h

theorem rank_lt (b : Buffer) : b.rank < 4 := by
  cases b <;> decide

theorem rank_source {b b' : Buffer} (h : b.source? = some b') : b'.rank < b.rank := by
  cases b <;> cases h <;> decide

theorem ne_of_rank_lt {b b' : Buffer} (h : b'.rank < b.rank) : b' ≠ b := by
  intro heq
  rw [heq] at h
  exact absurd h (Nat.lt_irrefl _)

theorem lt_succ_rank {b b' : Buffer} (h : b'.rank < b.rank + 1) : b' = b ∨ b'.rank < b.rank :=
  (Nat.lt_succ_iff_lt_or_eq.mp h).symm.imp_left rank_inj

variable [Add α] [Mul α] [OfScientific α]

def time (t h : α) : Buffer → α
  | k1 => t
  | k2 | k3 => t + 0.5 * h
  | k4 => t + h

def reach (h : α) : Buffer → α
  | k4 => h
  | _ => 0.5 * h

end Buffer

section

variable [Add α] [Mul α] [OfScientific α] (rate : MachineRate σ α ε) (t h : α) (y : List α)

def target (s : RungeKutta α) (b : Buffer) : List α :=
  match b.source? with
  | none => y
  | some b' => offset (b.reach h) s.probe y (s.read b')

def aim (s : RungeKutta α) (b : Buffer) : RungeKutta α :=
  match b.source? with
  | none => s
  | some _ => { s with probe := s.target h y b }

def takeStage (b : Buffer) (w : σ) (s : RungeKutta α) : σ × RungeKutta α × Option ε :=
  let (w, k, e) := rate w (b.time t h) (s.target h y b) (s.read b)
  (w, (s.aim h y b).write k b, e)

def takeStages : (todo : List Buffer) → σ → RungeKutta α → σ × RungeKutta α × Option ε
  | [], w, s => (w, s, none)
  | b :: todo, w, s =>
    match takeStage rate t h y b w s with
    | (w, s, some e) => (w, s, some e)
    | (w, s, none) => takeStages todo w s

def order : List Buffer :=
  [.k1, .k2, .k3, .k4]

section

variable {h y} {s : RungeKutta α} {b b' : Buffer}

theorem target_of_none (hb : b.source? = none) : s.target h y b = y := by
  rw [target, hb]

theorem target_of_some (hb : b.source? = some b') :
    s.target h y b = offset (b.reach h) s.probe y (s.read b') := by
  rw [target, hb]

theorem aim_of_none (hb : b.source? = none) : s.aim h y b = s := by
  rw [aim, hb]

theorem aim_of_some (hb : b.source? = some b') :
    s.aim h y b = { s with probe := offset (b.reach h) s.probe y (s.read b') } := by
  rw [aim, hb, target_of_some hb]

end

@[simp] theorem read_aim (s : RungeKutta α) (b b' : Buffer) :
    (s.aim h y b).read b' = s.read b' := by
  cases b <;> cases b' <;> rfl

/-- A step takes its stages one after the other, up to the first that fails. -/
theorem stepWith_eq [Div α] (w : σ) (s : RungeKutta α) :
    s.stepWith rate w t h y =
      match takeStages rate t h y order w s with
      | (w, s, some e) => (w, s, .error e)
      | (w, s, none) => (w, s, .ok (combine h y s.k1 s.k2 s.k3 s.k4)) := by
  -- Nowhere else are the four stages told apart; what follows goes by the list of them.
  simp only [stepWith, order, takeStages, takeStage, aim, target, Buffer.source?, Buffer.time,
    Buffer.reach, read, write]
  rcases rate w t y s.k1 with ⟨w, k1, _ | e⟩
  case some => rfl
  dsimp only
  generalize offset (0.5 * h) s.probe y k1 = probe
  rcases rate w (t + 0.5 * h) probe s.k2 with ⟨w, k2, _ | e⟩
  case some => rfl
  dsimp only
  generalize offset (0.5 * h) probe y k2 = probe
  rcases rate w (t + 0.5 * h) probe s.k3 with ⟨w, k3, _ | e⟩
  case some => rfl
  dsimp only
  generalize offset h probe y k3 = probe
  rcases rate w (t + h) probe s.k4 with ⟨w, k4, _ | e⟩ <;> rfl

variable (w : σ) (s : RungeKutta α)

/-- What a step that begins in a machine's state and with an integrator has come to after so many
stages. -/
inductive Reached : Nat → σ → RungeKutta α → Prop
  | start : Reached 0 w s
  | next {b : Buffer} {w₁ w₂ : σ} {s₁ : RungeKutta α} {k : List α}
    (hreached : Reached b.rank w₁ s₁)
    (hrate : rate w₁ (b.time t h) (s₁.target h y b) (s₁.read b) = (w₂, k, none)) :
    Reached (b.rank + 1) w₂ ((s₁.aim h y b).write k b)

variable {rate t h y w s} {i : Nat} {w₁ : σ} {s₁ : RungeKutta α}

theorem takeStage_eq {b : Buffer} {w₂ : σ} {k : List α} {e : Option ε}
    (hrate : rate w₁ (b.time t h) (s₁.target h y b) (s₁.read b) = (w₂, k, e)) :
    takeStage rate t h y b w₁ s₁ = (w₂, (s₁.aim h y b).write k b, e) := by
  rw [takeStage, hrate]

theorem Reached.le (hreached : Reached rate t h y w s i w₁ s₁) : i ≤ 4 := by
  cases hreached with
  | start => exact Nat.zero_le 4
  | @next b => exact b.rank_lt

theorem drop_rank (b : Buffer) : order.drop b.rank = b :: order.drop (b.rank + 1) := by
  cases b <;> rfl

theorem eq_of_drop {b : Buffer} {todo : List Buffer} (hdrop : order.drop i = b :: todo) :
    b.rank = i ∧ order.drop (b.rank + 1) = todo := by
  rcases i with _ | _ | _ | _ | i
  case succ.succ.succ.succ => simp [order] at hdrop
  all_goals
    obtain ⟨rfl, rfl⟩ := List.cons.inj hdrop
    exact ⟨rfl, rfl⟩

theorem Reached.takeStages_eq (hreached : Reached rate t h y w s i w₁ s₁) :
    takeStages rate t h y order w s = takeStages rate t h y (order.drop i) w₁ s₁ := by
  induction hreached with
  | start => rfl
  | next _ hrate ih => rw [ih, drop_rank, takeStages, takeStage_eq hrate]

theorem Reached.cases_takeStages {todo : List Buffer} (hdrop : order.drop i = todo)
    (hreached : Reached rate t h y w s i w₁ s₁) :
    (∃ w' s', takeStages rate t h y todo w₁ s₁ = (w', s', none) ∧
      Reached rate t h y w s 4 w' s') ∨
    ∃ b w₂ s₂ w' k e,
      takeStages rate t h y todo w₁ s₁ = (w', (s₂.aim h y b).write k b, some e) ∧
      Reached rate t h y w s b.rank w₂ s₂ ∧
      rate w₂ (b.time t h) (s₂.target h y b) (s₂.read b) = (w', k, some e) := by
  induction todo generalizing i w₁ s₁ with
  | nil =>
    obtain rfl := Nat.le_antisymm hreached.le (List.drop_eq_nil_iff.mp hdrop)
    exact .inl ⟨w₁, s₁, rfl, hreached⟩
  | cons b todo ih =>
    obtain ⟨rfl, hrest⟩ := eq_of_drop hdrop
    rw [takeStages]
    rcases hrate : rate w₁ (b.time t h) (s₁.target h y b) (s₁.read b) with ⟨w', k, _ | e⟩
    · rw [takeStage_eq hrate]
      exact ih hrest (.next hreached hrate)
    · rw [takeStage_eq hrate]
      exact .inr ⟨b, w₁, s₁, w', k, e, rfl, hreached, hrate⟩

variable [Div α]

/-- What a step can do: it takes all stages, or one of them fails. -/
theorem stepWith_cases (rate : MachineRate σ α ε) (t h : α) (y : List α) (w : σ)
    (s : RungeKutta α) :
    (∃ w' s', s.stepWith rate w t h y = (w', s', .ok (combine h y s'.k1 s'.k2 s'.k3 s'.k4)) ∧
      Reached rate t h y w s 4 w' s') ∨
    ∃ b w₁ s₁ w' k e, s.stepWith rate w t h y = (w', (s₁.aim h y b).write k b, .error e) ∧
      Reached rate t h y w s b.rank w₁ s₁ ∧
      rate w₁ (b.time t h) (s₁.target h y b) (s₁.read b) = (w', k, some e) := by
  have hstart : Reached rate t h y w s 0 w s := .start
  rw [stepWith_eq]
  rcases hstart.cases_takeStages List.drop_zero with
    ⟨w', s', hstages, hreached⟩ | ⟨b, w₁, s₁, w', k, e, hstages, hreached, hrate⟩
  · exact .inl ⟨w', s', by rw [hstages], hreached⟩
  · exact .inr ⟨b, w₁, s₁, w', k, e, by rw [hstages], hreached, hrate⟩

theorem Reached.stepWith_ok (hreached : Reached rate t h y w s 4 w₁ s₁) :
    s.stepWith rate w t h y = (w₁, s₁, .ok (combine h y s₁.k1 s₁.k2 s₁.k3 s₁.k4)) := by
  rw [stepWith_eq, hreached.takeStages_eq]
  rfl

theorem Reached.stepWith_error {b : Buffer} {w₂ : σ} {k : List α} {e : ε}
    (hreached : Reached rate t h y w s b.rank w₁ s₁)
    (hrate : rate w₁ (b.time t h) (s₁.target h y b) (s₁.read b) = (w₂, k, some e)) :
    s.stepWith rate w t h y = (w₂, (s₁.aim h y b).write k b, .error e) := by
  rw [stepWith_eq, hreached.takeStages_eq, drop_rank, takeStages, takeStage_eq hrate]

end

end SystemDynamics.RungeKutta
