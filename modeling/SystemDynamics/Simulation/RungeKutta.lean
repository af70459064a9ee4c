namespace SystemDynamics

/-- The rates of change at a time and a state. They are written over a buffer; a failure may leave
the buffer written in part. -/
abbrev Rate (α ε : Type) := α → List α → List α → List α × Option ε

abbrev MachineRate (σ α ε : Type) := σ → α → List α → List α → σ × List α × Option ε

structure RungeKutta (α : Type) where
  k1 : List α
  k2 : List α
  k3 : List α
  k4 : List α
  probe : List α

namespace RungeKutta

variable {α ε : Type} [Add α] [Mul α] [Div α] [OfScientific α]

def ofDimension (n : Nat) : RungeKutta α :=
  let blank := List.replicate n 0.0
  ⟨blank, blank, blank, blank, blank⟩

def offset (scale : α) : (buffer base k : List α) → List α
  | _ :: buffer, b :: base, d :: k => (b + scale * d) :: offset scale buffer base k
  | buffer, _, _ => buffer

/-- The state after a step of length `h`, from the rates at its stages. -/
def combine (h : α) : (state k1 k2 k3 k4 : List α) → List α
  | y :: state, a :: k1, b :: k2, c :: k3, d :: k4 =>
    (y + h / 6.0 * (a + 2.0 * b + 2.0 * c + d)) :: combine h state k1 k2 k3 k4
  | state, _, _, _, _ => state

/-- One step from time `t`. After a failure the buffers keep what was written into them. -/
def stepWith {σ : Type} (rate : MachineRate σ α ε) (w : σ) (t h : α) (state : List α)
    (s : RungeKutta α) : σ × RungeKutta α × Except ε (List α) :=
  let half := 0.5 * h
  match rate w t state s.k1 with
  | (w, k1, some e) => (w, { s with k1 }, .error e)
  | (w, k1, none) =>
  let probe := offset half s.probe state k1
  match rate w (t + half) probe s.k2 with
  | (w, k2, some e) => (w, { s with k1, k2, probe }, .error e)
  | (w, k2, none) =>
  let probe := offset half probe state k2
  match rate w (t + half) probe s.k3 with
  | (w, k3, some e) => (w, { s with k1, k2, k3, probe }, .error e)
  | (w, k3, none) =>
  let probe := offset h probe state k3
  match rate w (t + h) probe s.k4 with
  | (w, k4, some e) => (w, ⟨k1, k2, k3, k4, probe⟩, .error e)
  | (w, k4, none) => (w, ⟨k1, k2, k3, k4, probe⟩, .ok (combine h state k1 k2 k3 k4))

def step (rate : Rate α ε) (t h : α) (state : List α) (s : RungeKutta α) :
    RungeKutta α × Except ε (List α) :=
  (s.stepWith (fun (w : Unit) t state buffer ↦ (w, rate t state buffer)) () t h state).2

end RungeKutta

end SystemDynamics
