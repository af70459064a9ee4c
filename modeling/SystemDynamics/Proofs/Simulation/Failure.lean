import SystemDynamics.Proofs.Outcome
import SystemDynamics.Proofs.Simulation.Stages
import SystemDynamics.Simulation.Run

namespace SystemDynamics

def RunError.IsEvaluation : RunError → Prop
  | evaluation .. => True
  | gridTooLarge .. | invalidOverride .. => False

theorem RungeKutta.stepWith_error {σ ε α : Type} [Add α] [Mul α] [Div α] [OfScientific α]
    {P : ε → Prop} {rate : MachineRate σ α ε}
    (hrate : ∀ {w t y buffer w' k e}, rate w t y buffer = (w', k, some e) → P e) {w : σ} {t h : α}
    {y : List α} {s : RungeKutta α} {e : ε} (hstep : (s.stepWith rate w t h y).2.2 = .error e) :
    P e := by
  rcases stepWith_cases rate t h y w s with
    ⟨_, _, hok, -⟩ | ⟨_, _, _, _, _, e', herror, -, hfails⟩
  · rw [hok] at hstep
    exact absurd hstep (by simp)
  · rw [herror] at hstep
    obtain rfl := Except.error.inj hstep
    exact hrate hfails

namespace Model

variable {m : Model} {overrides : NameMap Float} {limit : Nat}

theorem isEvaluation_of_evaluate {f : Frame} {time : Float} {stocks : List Float} {e : RunError}
    (h : m.evaluate f time stocks = .error e) : e.IsEvaluation := by
  rw [evaluate] at h
  generalize m.program.run (Program.load f time stocks) = outcome at h
  cases outcome with
  | ok f => exact absurd h (by simp [Except.mapError])
  | error failed =>
    obtain rfl := Except.error.inj h
    exact trivial

theorem isEvaluation_of_rate {f f' : Frame} {time : Float} {stocks buffer rates : List Float}
    {e : RunError} (h : m.rate f time stocks buffer = (f', rates, some e)) : e.IsEvaluation := by
  rw [rate] at h
  split at h
  case h_1 => exact absurd h (by simp)
  case h_2 hevaluate =>
    simp only [Prod.mk.injEq, Option.some.injEq] at h
    exact h.2.2 ▸ isEvaluation_of_evaluate hevaluate

theorem isEvaluation_of_recordFrom {grid : List Float} {point : Nat} {stocks : List Float}
    {f : Frame} {s : RungeKutta Float} {l : Ledger} {e : RunError}
    (h : m.recordFrom grid point stocks f s l = .error e) : e.IsEvaluation := by
  induction grid generalizing point stocks f s l with
  | nil => exact absurd h (by simp [recordFrom])
  | cons t grid ih =>
    cases grid with
    | nil =>
      rw [recordFrom, Except.bind_eq_error] at h
      rcases h with hevaluate | ⟨f, -, hrecord⟩
      · exact isEvaluation_of_evaluate hevaluate
      · exact absurd hrecord (by simp [pure, Except.pure])
    | cons next grid =>
      rw [recordFrom, Except.bind_eq_error] at h
      rcases h with hevaluate | ⟨f, -, hrest⟩
      · exact isEvaluation_of_evaluate hevaluate
      · dsimp only at hrest
        rw [Except.bind_eq_error] at hrest
        rcases hrest with hstep | ⟨stocks, -, hrest⟩
        · exact RungeKutta.stepWith_error isEvaluation_of_rate hstep
        · exact ih hrest

theorem simulate_eq_invalidOverride {name : String} :
    m.simulate overrides limit = .error (.invalidOverride name) ↔
      m.resolve overrides = .error (.invalidOverride name) := by
  rw [simulate, Except.bind_eq_error]
  constructor
  · intro h
    rcases h with hresolve | ⟨parameters, -, hgrid⟩
    · exact hresolve
    rw [Except.bind_eq_error] at hgrid
    rcases hgrid with hgrid | ⟨grid, -, hrecord⟩
    · generalize Grid.build m.horizon.start m.horizon.stop m.horizon.step limit = built at hgrid
      cases built <;> simp [Except.mapError] at hgrid
    dsimp only at hrecord
    rw [Except.bind_eq_error] at hrecord
    rcases hrecord with hrecord | ⟨ledger, -, hlast⟩
    · exact (isEvaluation_of_recordFrom hrecord).elim
    · exact absurd hlast (by simp [pure, Except.pure])
  · exact Or.inl

theorem simulate_single {name : String} {x : Float} :
    (∃ id, m.simulate (.ofList [(name, x)]) limit = .error (.invalidOverride id)) ↔
      x.isFinite = false := by
  have hentries : (NameMap.ofList [(name, x)]).entries = [(name, x)] := rfl
  simp only [simulate_eq_invalidOverride, resolve, hentries]
  cases hx : x.isFinite <;> simp [hx]

end Model

end SystemDynamics
