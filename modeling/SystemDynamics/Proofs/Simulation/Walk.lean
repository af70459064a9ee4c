import Mathlib.Data.List.Defs
import SystemDynamics.Simulation.Run
import SystemDynamics.Proofs.Simulation.RungeKutta

namespace SystemDynamics

namespace RungeKutta

variable {α σ τ ε : Type} [Add α] [Mul α]

def stage (scale : α) (y k : List α) : List α :=
  List.zipWith (fun b d ↦ b + scale * d) y k

theorem offset_eq_stage (scale : α) {buffer y k : List α} (hbuffer : buffer.length = y.length)
    (hk : k.length = y.length) : offset scale buffer y k = stage scale y k := by
  induction y generalizing buffer k with
  | nil =>
    obtain rfl := List.length_eq_zero_iff.mp hbuffer
    rfl
  | cons b y ih =>
    obtain ⟨_, buffer, rfl⟩ := List.exists_cons_of_length_eq_add_one hbuffer
    obtain ⟨d, k, rfl⟩ := List.exists_cons_of_length_eq_add_one hk
    rw [offset, ih (by simpa using hbuffer) (by simpa using hk)]
    rfl

theorem length_stage (scale : α) {y k : List α} (hk : k.length = y.length) :
    (stage scale y k).length = y.length := by
  rw [stage, List.length_zipWith, hk, Nat.min_self]

theorem offset_fits (scale : α) {n : Nat} {buffer y k : List α} (hbuffer : buffer.length = n)
    (hy : y.length = n) (hk : k.length = n) :
    offset scale buffer y k = stage scale y k ∧ (stage scale y k).length = n :=
  ⟨offset_eq_stage scale (hbuffer.trans hy.symm) (hk.trans hy.symm),
    (length_stage scale (hk.trans hy.symm)).trans hy⟩

/-- The times and the states at which a step takes the rates. -/
structure Stages (α : Type) where
  first : α × List α
  second : α × List α
  third : α × List α
  fourth : α × List α

variable [Div α] [OfScientific α]

/-- Visits the points of a grid in a machine's state, and steps from each to the next. -/
def walk [Sub α] (visit : σ → α → List α → Except ε σ) (rate : MachineRate σ α ε) :
    (grid : List α) → σ → RungeKutta α → List α → Except ε σ
  | [], w, _, _ => .ok w
  | [t], w, _, y => visit w t y
  | t :: next :: grid, w, s, y => do
    let w ← visit w t y
    let (w, s, stepped) := s.stepWith rate w t (next - t) y
    let y ← stepped
    walk visit rate (next :: grid) w s y

def beside (rate : MachineRate σ α ε) : MachineRate (σ × τ) α ε := fun (w, x) t y buffer ↦
  let (w, k, e) := rate w t y buffer
  ((w, x), k, e)

theorem stepWith_beside (rate : MachineRate σ α ε) (w : σ) (x : τ) (s : RungeKutta α) (t h : α)
    (y : List α) :
    s.stepWith (beside rate) (w, x) t h y =
      (((s.stepWith rate w t h y).1, x), (s.stepWith rate w t h y).2) := by
  have hrate : ∀ (w : σ × τ) (w' : σ) t y buffer, w = (w', x) → ∃ v v' k e,
      beside rate w t y buffer = (v, k, e) ∧ rate w' t y buffer = (v', k, e) ∧ v = (v', x) := by
    intro w w' t y buffer hw
    subst hw
    exact ⟨_, _, _, _, rfl, rfl, rfl⟩
  obtain ⟨v, v', s', next, hstep, hstep', rfl⟩ := stepWith_same hrate (rfl : (w, x) = _) s t h y
  rw [hstep, hstep']

variable (k : α → List α → List α)

/-- The stages of a step from a time and a state, at which the rates are `k`. -/
def stages (t h : α) (y : List α) : Stages α :=
  let half := 0.5 * h
  let y₂ := stage half y (k t y)
  let y₃ := stage half y (k (t + half) y₂)
  let y₄ := stage h y (k (t + half) y₃)
  ⟨(t, y), (t + half, y₂), (t + half, y₃), (t + h, y₄)⟩

/-- The state after a step: the rates at the stages are weighted as 1, 2, 2 and 1. -/
def advance (t h : α) (y : List α) : List α :=
  let s := stages k t h y
  List.zipWith5 (fun x a b c d ↦ x + h / 6.0 * (a + 2.0 * b + 2.0 * c + d)) y
    (k s.first.1 s.first.2) (k s.second.1 s.second.2) (k s.third.1 s.third.2)
    (k s.fourth.1 s.fourth.2)

/-- A machine with rates that depend on the time and the state alone. -/
def steady : MachineRate σ α ε := fun w t y _ ↦ (w, k t y, none)

section

variable [Sub α]

/-- The points of a grid, and the states that are reached there from a first one. -/
def course : (grid : List α) → List α → List (α × List α)
  | [], _ => []
  | [t], y => [(t, y)]
  | t :: next :: grid, y => (t, y) :: course (next :: grid) (advance k t (next - t) y)

/-- A walk that notes where it was. -/
def walked (grid : List α) (y : List α) : Except ε (List (α × List α)) :=
  walk (fun visited t y ↦ .ok (visited ++ [(t, y)])) (steady k) grid [] (ofDimension y.length) y

variable {k}

theorem course_fst (grid : List α) (y : List α) : (course k grid y).map (·.1) = grid := by
  fun_induction course k grid y with
  | case1 => rfl
  | case2 => rfl
  | case3 t next grid y ih => rw [List.map_cons, ih]

theorem course_cons (t : α) (grid : List α) (y : List α) :
    ∃ rest, course k (t :: grid) y = (t, y) :: rest := by
  cases grid with
  | nil => exact ⟨_, rfl⟩
  | cons next grid => exact ⟨_, rfl⟩

theorem course_isChain (grid : List α) (y : List α) :
    (course k grid y).IsChain fun a b ↦ b.2 = advance k a.1 (b.1 - a.1) a.2 := by
  fun_induction course k grid y with
  | case1 => exact .nil
  | case2 => exact .singleton _
  | case3 t next grid y ih =>
    obtain ⟨rest, hrest⟩ := course_cons (k := k) next grid (advance k t (next - t) y)
    rw [hrest] at ih ⊢
    exact .cons_cons rfl ih

theorem course_keeps {P : List α → Prop} (hP : ∀ t h y, P y → P (advance k t h y))
    (grid : List α) {y : List α} (hy : P y) : ∀ a ∈ course k grid y, P a.2 := by
  fun_induction course k grid y with
  | case1 => simp
  | case2 => simpa using hy
  | case3 t next grid y ih =>
    rw [List.forall_mem_cons]
    exact ⟨hy, ih (hP _ _ _ hy)⟩

end

variable {k} {n : Nat}

theorem combine_eq_zipWith5 (h : α) {y k1 k2 k3 k4 : List α} (hy : y.length = n)
    (h1 : k1.length = n) (h2 : k2.length = n) (h3 : k3.length = n) (h4 : k4.length = n) :
    combine h y k1 k2 k3 k4 =
      List.zipWith5 (fun x a b c d ↦ x + h / 6.0 * (a + 2.0 * b + 2.0 * c + d)) y k1 k2 k3 k4 := by
  induction n generalizing y k1 k2 k3 k4 with
  | zero =>
    rw [List.length_eq_zero_iff.mp hy]
    rfl
  | succ n ih =>
    obtain ⟨x, y, rfl⟩ := List.exists_cons_of_length_eq_add_one hy
    obtain ⟨a, k1, rfl⟩ := List.exists_cons_of_length_eq_add_one h1
    obtain ⟨b, k2, rfl⟩ := List.exists_cons_of_length_eq_add_one h2
    obtain ⟨c, k3, rfl⟩ := List.exists_cons_of_length_eq_add_one h3
    obtain ⟨d, k4, rfl⟩ := List.exists_cons_of_length_eq_add_one h4
    simp only [List.length_cons, Nat.add_right_cancel_iff] at hy h1 h2 h3 h4
    rw [combine, ih hy h1 h2 h3 h4]
    rfl

variable (hk : ∀ t y, y.length = n → (k t y).length = n)

include hk

theorem advance_eq_combine (t h : α) {y : List α} (hy : y.length = n) :
    advance k t h y =
      let s := stages k t h y
      combine h y (k s.first.1 s.first.2) (k s.second.1 s.second.2) (k s.third.1 s.third.2)
        (k s.fourth.1 s.fourth.2) := by
  have hstage (scale : α) {k' : List α} (hk' : k'.length = n) :
      (stage scale y k').length = n :=
    (length_stage scale (hk'.trans hy.symm)).trans hy
  have h1 := hk t y hy
  have h2 := hk (t + 0.5 * h) _ (hstage (0.5 * h) h1)
  have h3 := hk (t + 0.5 * h) _ (hstage (0.5 * h) h2)
  have h4 := hk (t + h) _ (hstage h h3)
  exact (combine_eq_zipWith5 h hy h1 h2 h3 h4).symm

theorem length_advance (t h : α) {y : List α} (hy : y.length = n) :
    (advance k t h y).length = n := by
  rw [advance_eq_combine hk t h hy, length_combine, hy]

theorem stepWith_steady {s : RungeKutta α} (hs : s.Fits n) (w : σ) (t h : α) {y : List α}
    (hy : y.length = n) :
    ∃ s', s.stepWith (steady k : MachineRate σ α ε) w t h y = (w, s', .ok (advance k t h y)) ∧
      s'.Fits n := by
  obtain ⟨h2, hy2⟩ := offset_fits (0.5 * h) hs.probe hy (hk t y hy)
  obtain ⟨h3, hy3⟩ := offset_fits (0.5 * h) hy2 hy (hk (t + 0.5 * h) _ hy2)
  obtain ⟨h4, hy4⟩ := offset_fits h hy3 hy (hk (t + 0.5 * h) _ hy3)
  simp only [stepWith, steady, h2, h3, h4, advance_eq_combine hk t h hy]
  exact ⟨_, rfl, hk _ _ hy, hk _ _ hy2, hk _ _ hy3, hk _ _ hy4, hy4⟩

theorem walk_steady [Sub α] (grid : List α) (visited : List (α × List α)) {s : RungeKutta α}
    (hs : s.Fits n) {y : List α} (hy : y.length = n) :
    walk (fun visited t y ↦ (.ok (visited ++ [(t, y)]) : Except ε _)) (steady k) grid visited s y =
      .ok (visited ++ course k grid y) := by
  induction grid generalizing visited s y with
  | nil => rw [course, List.append_nil]; rfl
  | cons t grid ih =>
    cases grid with
    | nil => rfl
    | cons next grid =>
      obtain ⟨s', hstep, hs'⟩ : ∃ s', s.stepWith (steady k : MachineRate _ α ε)
          (visited ++ [(t, y)]) t (next - t) y =
            (visited ++ [(t, y)], s', .ok (advance k t (next - t) y)) ∧ s'.Fits n :=
        stepWith_steady hk hs _ t (next - t) hy
      rw [walk, Except.ok_bind, hstep]
      dsimp only
      rw [Except.ok_bind, ih _ hs' (length_advance hk t _ hy), course, List.append_assoc]
      rfl

theorem walked_eq [Sub α] (grid : List α) {y : List α} (hy : y.length = n) :
    (walked k grid y : Except ε _) = .ok (course k grid y) :=
  walk_steady hk grid [] (hy ▸ fits_ofDimension _) hy

end RungeKutta

namespace Model

variable (m : Model)

def visit : Frame × Nat × Ledger → Float → List Float → Except RunError (Frame × Nat × Ledger) :=
  fun (f, point, l) t y ↦ do
    let f ← m.evaluate f t y
    return (f, point + 1, l.record point f)

/-- A run is a walk that evaluates and records at every point. -/
theorem recordFrom_eq_walk (grid : List Float) (point : Nat) (y : List Float) (f : Frame)
    (s : RungeKutta Float) (l : Ledger) :
    m.recordFrom grid point y f s l =
      (RungeKutta.walk m.visit (RungeKutta.beside m.rate) grid (f, point, l) s y).map (·.2.2) := by
  induction grid generalizing point y f s l with
  | nil => rfl
  | cons t grid ih =>
    cases grid with
    | nil =>
      rw [recordFrom, RungeKutta.walk, visit]
      cases m.evaluate f t y <;> rfl
    | cons next grid =>
      rw [recordFrom, RungeKutta.walk, visit]
      cases m.evaluate f t y with
      | error e => rfl
      | ok f =>
        simp only [Except.ok_bind, pure_bind, RungeKutta.stepWith_beside]
        rcases s.stepWith m.rate f t (next - t) y with ⟨f, s, e | y⟩
        · rfl
        · exact ih _ _ _ _ _

end Model

end SystemDynamics
