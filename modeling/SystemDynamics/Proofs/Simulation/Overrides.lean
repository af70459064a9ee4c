import SystemDynamics.Proofs.Simulation.Agreement
import SystemDynamics.Proofs.Validation.Completion

namespace SystemDynamics

open Validation

theorem Parameter.settled_override (overrides : NameMap Float) (p : Parameter) :
    Parameter.settled .empty { p with value := overrides.find? p.id <|> p.value } =
      p.settled overrides := by
  rw [settled, settled]
  cases overrides.find? p.id <;> rfl

theorem Document.map_settled_override (overrides : NameMap Float) (d : Document) :
    (d.override overrides).parameters.map (·.settled .empty) =
      d.parameters.map (·.settled overrides) := by
  rw [override, List.map_map]
  exact List.map_congr_left fun p _ ↦ p.settled_override overrides

theorem Domain.override_acceptable {domain : Domain} {d : Document} {m : Model}
    (h : domain.validate d = .ok m) {overrides : NameMap Float}
    (hfinite : overrides.values.all Float.isFinite) :
    (m.document.override overrides).Acceptable domain.world := by
  have hd := Domain.complete_acceptable h
  refine hd.of_outline (Document.outline_override overrides m.document) hd.company ?_ hd.horizon
  intro p hp
  obtain ⟨q, hq, rfl⟩ := List.mem_map.mp hp
  cases ho : overrides.find? q.id with
  | none =>
    obtain ⟨x, hx, hfinite⟩ := hd.value q hq
    exact ⟨x, hx, hfinite⟩
  | some x => exact ⟨x, rfl, List.all_eq_true.mp hfinite x (NameMap.mem_values_of_find? ho)⟩

namespace Model

variable {m m' : Model}

theorem recordFrom_congr (hevaluate : m'.evaluate = m.evaluate) (hrate : m'.rate = m.rate)
    (grid : List Float) (point : Nat) (stocks : List Float) (f : Frame) (s : RungeKutta Float)
    (l : Ledger) :
    m'.recordFrom grid point stocks f s l = m.recordFrom grid point stocks f s l := by
  induction grid generalizing point stocks f s l with
  | nil => rfl
  | cons t grid ih =>
    cases grid with
    | nil => rw [recordFrom, recordFrom, hevaluate]
    | cons next grid =>
      rw [recordFrom, recordFrom, hevaluate, hrate]
      simp only [ih]

theorem Runs.resolve_eq {d : Document} (hm : m.Runs d) {overrides : NameMap Float}
    (hfinite : overrides.values.all Float.isFinite) :
    m.resolve overrides = .ok (d.parameters.map (·.settled overrides)) := by
  have h : Except.Agrees (fun parameters _ ↦ parameters = d.parameters.map (·.settled overrides))
      (m.resolve overrides) (guard (overrides.values.all Float.isFinite)) := hm.resolve_agrees
  rw [hfinite] at h
  obtain ⟨parameters, hresolve, rfl⟩ := h
  exact hresolve

/-- Models that differ in the declared values of their parameters run alike on the same values. -/
theorem simulate_congr {d d' : Document} (hm : m.Runs d) (hm' : m'.Runs d')
    (hdocument : m'.document.outline = m.document.outline) (hhorizon : m'.horizon = m.horizon)
    {values : List Float} (hprogram : m'.program = { m.program with parameters := values })
    {overrides overrides' : NameMap Float} (hfinite : overrides.values.all Float.isFinite)
    (hfinite' : overrides'.values.all Float.isFinite)
    (hparameters : d'.parameters.map (·.settled overrides') =
      d.parameters.map (·.settled overrides)) (limit : Nat) :
    m'.simulate overrides' limit = m.simulate overrides limit := by
  have hfailure : m'.failure = m.failure := by
    have hequation : m'.document.outline.equation? = m.document.outline.equation? := by
      rw [hdocument]
    funext time i fault
    rw [failure, failure]
    exact congrArg (fun equation ↦ RunError.evaluation ((equation i.owner).getD ("", "")).1
      ((equation i.owner).getD ("", "")).2 time fault) hequation
  have hevaluate : m'.evaluate = m.evaluate := by
    funext f time stocks
    rw [evaluate, evaluate, hfailure, hprogram]
    rfl
  have hrate : m'.rate = m.rate := by
    funext f time stocks buffer
    rw [rate, rate, hevaluate, hprogram]
    rfl
  have hsettings : ∀ parameters, m'.settings parameters = m.settings parameters := by
    intro parameters
    rw [settings, settings, (Document.fields_of_outline hdocument).1, hhorizon, hprogram]
  rw [simulate, simulate, hm'.resolve_eq hfinite', hm.resolve_eq hfinite, hparameters, hhorizon]
  simp only [recordFrom_congr hevaluate hrate, hsettings, hprogram]
  rfl

end Model

/-- A run with overrides that are finite is the run without overrides of the document that declares
their values. That document is always accepted, whatever the overrides name. -/
theorem simulate_overrides_as_declared (domain : Domain) (d : Document) (m : Model)
    (h : domain.validate d = .ok m) (overrides : NameMap Float)
    (hfinite : overrides.values.all Float.isFinite) :
    ∃ m', domain.validate (m.document.override overrides) = .ok m' ∧
      ∀ limit, m'.simulate .empty limit = m.simulate overrides limit := by
  have hacceptable := Domain.override_acceptable h hfinite
  obtain ⟨hviolations, p, hp, rfl⟩ := Domain.validate_eq_ok.mp h
  have houtline : ((domain.complete d).override overrides).outline = d.outline := by
    rw [Document.outline_override, Document.outline_complete]
  have hp' := Document.program_of_outline houtline hp
  have h' := Domain.validate_eq_ok.mpr ⟨hacceptable.violations_eq_nil, _, hp', rfl⟩
  refine ⟨_, h', fun limit ↦ ?_⟩
  exact Model.simulate_congr (Model.runs_of_validate h).1 (Model.runs_of_validate h').1
    houtline rfl rfl hfinite rfl (Document.map_settled_override overrides d) limit

/-- Of these overrides one is for a parameter, the others for a stock, a flow and nothing at all. -/
def strayOverrides : NameMap Float :=
  .ofList [("training_time", 4), ("skilled_engineers", 9), ("promotion_rate", -1), ("nothing", 0)]

theorem simulate_overrides_as_declared_training :
    ∃ m m' r, Domain.aerodin.validate training = .ok m ∧
      Domain.aerodin.validate (m.document.override strayOverrides) = .ok m' ∧
      m'.simulate .empty 10 = .ok r ∧ m.simulate strayOverrides 10 = .ok r := by
  have hsome : ((Domain.aerodin.validate training).toOption.bind fun m ↦
      (m.simulate strayOverrides 10).toOption).isSome := by decide +kernel
  obtain ⟨r, hr⟩ := Option.isSome_iff_exists.mp hsome
  obtain ⟨m, hm, hr⟩ := Option.bind_eq_some_iff.mp hr
  rw [Except.toOption_eq_some] at hm hr
  have hfinite : strayOverrides.values.all Float.isFinite := by decide +kernel
  obtain ⟨m', hm', heq⟩ :=
    simulate_overrides_as_declared .aerodin training m hm strayOverrides hfinite
  exact ⟨m, m', r, hm, hm', (heq 10).trans hr, hr⟩

end SystemDynamics
