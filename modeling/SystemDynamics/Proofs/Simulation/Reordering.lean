import SystemDynamics.Proofs.Simulation.Agreement
import SystemDynamics.Proofs.Validation.Reordering

namespace SystemDynamics

variable {d d' : Document}

namespace ByName

variable (h : d.Reordered d') (hw : d.WellDeclared)

include h hw

theorem given?_reordered : given? d' = given? d := by
  have hstock : ∀ name, d'.stock? name = d.stock? name := fun name ↦
    find?_perm h.stocks ((h.wellDeclared hw).idsOf_nodup .stock) name
  have hparameter : ∀ name, d'.parameter? name = d.parameter? name := fun name ↦
    find?_perm h.parameters ((h.wellDeclared hw).idsOf_nodup .parameter) name
  funext overrides time stocks name
  rw [given?, given?, hstock, parameter?, parameter?, hparameter]

theorem computed?_reordered : computed? d' = computed? d := by
  funext given depth
  induction depth with
  | zero => rfl
  | succ depth ih =>
    have hlookup := NameMap.lookup_perm h.equations_perm (h.wellDeclared hw).equations_nodup
    funext name
    rw [computed?, computed?, hlookup, ih]

theorem computedAt_reordered : computedAt d' = computedAt d := by
  funext overrides time stocks
  rw [computedAt, computedAt, given?_reordered h hw, settle, settle, computed?_reordered h hw,
    h.equations_perm.length_eq]
  simp only [h.equations_perm.all_eq]

theorem runFrom_reordered (overrides : NameMap Float) (grid : List Float) (y : Values) :
    runFrom d' overrides grid y = runFrom d overrides grid y := by
  have hslope : slope d' = slope d := by
    funext c stock
    rw [slope, slope, h.flows]
  induction grid generalizing y with
  | nil => rfl
  | cons t grid ih =>
    cases grid with
    | nil => rw [runFrom, runFrom, computedAt_reordered h hw]
    | cons next grid =>
      rw [runFrom, runFrom, advance, advance, computedAt_reordered h hw, hslope]
      simp only [ih]

/-- By name the order of the declarations does not show. -/
theorem run_reordered (overrides : NameMap Float) (horizon : Horizon) (limit : Nat) :
    run d' overrides horizon limit = run d overrides horizon limit := by
  have hinitial : initial d' = initial d := by
    funext name
    rw [initial, initial, Document.stock?,
      find?_perm h.stocks ((h.wellDeclared hw).idsOf_nodup .stock)]
    rfl
  rw [run, run, hinitial]
  simp only [runFrom_reordered h hw]

end ByName

namespace Trajectory

structure Sorted (r : Trajectory) : Prop where
  stocks : r.stocks.Sorted
  flows : r.flows.Sorted
  auxiliaries : r.auxiliaries.Sorted
  parameters : r.settings.parameters.Sorted

variable {overrides : NameMap Float} {horizon : Horizon} {moments : List ByName.Moment}
  {r r' : Trajectory}

theorem Shows.unique (hr : r.Shows d overrides horizon moments)
    (hr' : r'.Shows d overrides horizon moments) (hs : r.Sorted) (hs' : r'.Sorted) : r = r' := by
  have htime := hr.time.trans hr'.time.symm
  have hstocks := hs.stocks.eq_of_names hs'.stocks hr.stock_names hr'.stock_names hr.stocks
    hr'.stocks
  have hflows := hs.flows.eq_of_names hs'.flows hr.flow_names hr'.flow_names hr.flows hr'.flows
  have hauxiliaries := hs.auxiliaries.eq_of_names hs'.auxiliaries hr.auxiliary_names
    hr'.auxiliary_names hr.auxiliaries hr'.auxiliaries
  have hparameters := hs.parameters.eq_of_names hs'.parameters hr.parameter_names
    hr'.parameter_names hr.parameters hr'.parameters
  have hname := hr.modelName.trans hr'.modelName.symm
  have hhorizon := hr.horizon.trans hr'.horizon.symm
  obtain ⟨time, stocks, flows, auxiliaries, modelName, parameters, horizon⟩ := r
  obtain ⟨time', stocks', flows', auxiliaries', modelName', parameters', horizon'⟩ := r'
  dsimp only at htime hstocks hflows hauxiliaries hparameters hname hhorizon
  rw [htime, hstocks, hflows, hauxiliaries, hparameters, hname, hhorizon]

theorem Shows.reordered (hr : r.Shows d overrides horizon moments) (h : d.Reordered d') :
    r.Shows d' overrides horizon moments where
  ids_nodup := h.ids_perm.nodup_iff.mpr hr.ids_nodup
  time := hr.time
  stock_names := hr.stock_names.trans (h.stocks.map _).symm
  flow_names := h.flows ▸ hr.flow_names
  auxiliary_names := hr.auxiliary_names.trans (h.auxiliaries.map _).symm
  stocks s hs := hr.stocks s (h.stocks.mem_iff.mp hs)
  flows f hf := hr.flows f (h.flows ▸ hf)
  auxiliaries a ha := hr.auxiliaries a (h.auxiliaries.mem_iff.mp ha)
  modelName := hr.modelName.trans h.name.symm
  parameter_names := hr.parameter_names.trans (h.parameters.map _).symm
  parameters p hp := hr.parameters p (h.parameters.mem_iff.mp hp)
  horizon := hr.horizon

end Trajectory

namespace Model

variable {m m' : Model} {overrides : NameMap Float} {limit : Nat} {r r' : Trajectory}

theorem sorted_of_simulate (h : m.simulate overrides limit = .ok r) : r.Sorted := by
  obtain ⟨parameters, -, h⟩ := Except.bind_eq_ok.mp h
  obtain ⟨grid, -, h⟩ := Except.bind_eq_ok.mp h
  obtain ⟨l, -, h⟩ := Except.bind_eq_ok.mp h
  obtain rfl := Except.pure_eq_ok.mp h
  constructor <;> exact NameMap.sorted_ofList _

theorem simulate_reordered (hm : m.Runs d) (hm' : m'.Runs d') (h : d.Reordered d')
    (hname : m.document.name = d.name) (hname' : m'.document.name = d'.name)
    (hhorizon : m'.horizon = m.horizon) (hr : m.simulate overrides limit = .ok r) :
    m'.simulate overrides limit = .ok r := by
  obtain ⟨moments, hmoments, -, hshows⟩ := hm.exists_moments hname hr
  have hrun : ByName.run d' overrides m'.horizon limit = some moments := by
    rw [ByName.run_reordered h hm.wellDeclared, hhorizon, hmoments]
  obtain ⟨r', hr'⟩ := (hm'.simulate_agrees limit).isOk_iff.mpr ⟨moments, hrun⟩
  obtain ⟨moments', hmoments', -, hshows'⟩ := hm'.exists_moments hname' hr'
  obtain rfl := Option.some.inj (hrun.symm.trans hmoments')
  rw [hhorizon] at hshows'
  rw [hr', (hshows.reordered h).unique hshows' (sorted_of_simulate hr) (sorted_of_simulate hr')]

end Model

/-- The order in which stocks, parameters and auxiliaries are declared does not matter. A document
is accepted whenever it is in another order; and one run succeeds just when the other does, and
then with the same trajectory. -/
theorem declaration_order_irrelevant (domain : Domain) (d d' : Document) (h : d.Reordered d') :
    ((∃ m, domain.validate d = .ok m) ↔ ∃ m, domain.validate d' = .ok m) ∧
    ∀ m m', domain.validate d = .ok m → domain.validate d' = .ok m' →
      ∀ overrides limit r, m.simulate overrides limit = .ok r ↔
        m'.simulate overrides limit = .ok r := by
  constructor
  · constructor
    · rintro ⟨m, hm⟩
      exact (h.acceptable (Domain.acceptable_of_validate hm)).exists_model
    · rintro ⟨m, hm⟩
      exact (h.symm.acceptable (Domain.acceptable_of_validate hm)).exists_model
  · intro m m' hm hm' overrides limit r
    obtain ⟨hruns, hname, hhorizon⟩ := Model.runs_of_validate hm
    obtain ⟨hruns', hname', hhorizon'⟩ := Model.runs_of_validate hm'
    have hsame : m'.horizon = m.horizon := by rw [hhorizon, hhorizon', h.horizon]
    exact ⟨Model.simulate_reordered hruns hruns' h hname hname' hsame,
      Model.simulate_reordered hruns' hruns h.symm hname' hname hsame.symm⟩

def Document.turned (d : Document) : Document :=
  { d with
    stocks := d.stocks.reverse
    parameters := d.parameters.reverse
    auxiliaries := d.auxiliaries.reverse }

theorem Document.reordered_turned (d : Document) : d.Reordered d.turned where
  company := rfl
  name := rfl
  description := rfl
  stocks := d.stocks.reverse_perm
  flows := rfl
  parameters := d.parameters.reverse_perm
  auxiliaries := d.auxiliaries.reverse_perm
  horizon := rfl

theorem declaration_order_irrelevant_training :
    training.turned.stocks ≠ training.stocks ∧ training.turned.auxiliaries ≠ training.auxiliaries ∧
    ∃ m m' r, Domain.aerodin.validate training = .ok m ∧
      Domain.aerodin.validate training.turned = .ok m' ∧
      m.simulate .empty 10 = .ok r ∧ m'.simulate .empty 10 = .ok r := by
  have hsome : ((Domain.aerodin.validate training).toOption.bind fun m ↦
      (m.simulate .empty 10).toOption).isSome := by decide +kernel
  obtain ⟨r, hr⟩ := Option.isSome_iff_exists.mp hsome
  obtain ⟨m, hm, hr⟩ := Option.bind_eq_some_iff.mp hr
  rw [Except.toOption_eq_some] at hm hr
  have h := declaration_order_irrelevant .aerodin training training.turned
    training.reordered_turned
  obtain ⟨m', hm'⟩ := h.1.mp ⟨m, hm⟩
  exact ⟨by decide, by decide, m, m', r, hm, hm', hr, (h.2 m m' hm hm' .empty 10 r).mp hr⟩

end SystemDynamics
