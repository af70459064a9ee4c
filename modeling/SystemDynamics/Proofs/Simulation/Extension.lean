import SystemDynamics.Proofs.Simulation.Agreement
import SystemDynamics.Proofs.Simulation.Points
import SystemDynamics.Proofs.Validation.Outline

namespace SystemDynamics

namespace Grid

theorem take_points (start stop stop' step : Float) {count count' n : Nat} (hn : n ≤ count - 1)
    (hn' : n ≤ count' - 1) :
    (points start stop' step count').take n = (points start stop step count).take n := by
  simp only [points, List.take_append_of_le_length, List.length_map, List.length_range, hn, hn',
    ← List.map_take, List.take_range, Nat.min_eq_left]

theorem take_of_build {start stop stop' step : Float} {limit limit' n : Nat}
    {grid grid' : List Float} (h : build start stop step limit = .ok grid)
    (h' : build start stop' step limit' = .ok grid') (hn : n < grid.length)
    (hn' : n < grid'.length) : grid'.take n = grid.take n := by
  obtain ⟨-, rfl⟩ := build_eq_ok.mp h
  obtain ⟨-, rfl⟩ := build_eq_ok.mp h'
  rw [length_points] at hn hn'
  exact take_points start stop stop' step (by omega) (by omega)

end Grid

theorem ByName.runFrom_take {d : Document} {overrides : NameMap Float} {grid grid' : List Float}
    {y : Values} {moments moments' : List Moment}
    (h : runFrom d overrides grid y = some moments)
    (h' : runFrom d overrides grid' y = some moments') {n : Nat}
    (hgrid : grid'.take n = grid.take n) : moments'.take n = moments.take n := by
  induction n generalizing grid grid' y moments moments' with
  | zero => rw [List.take_zero, List.take_zero]
  | succ n ih =>
    match grid, grid' with
    | [], [] => rw [Option.some.inj (h'.symm.trans h)]
    | [], t' :: rest' => simp at hgrid
    | t :: rest, [] => simp at hgrid
    | t :: rest, t' :: rest' =>
      rw [List.take_succ_cons, List.take_succ_cons, List.cons.injEq] at hgrid
      obtain ⟨rfl, hrest⟩ := hgrid
      obtain ⟨c, later, hc, rfl, hlater⟩ := runFrom_cons_eq_some.mp h
      obtain ⟨c', later', hc', rfl, hlater'⟩ := runFrom_cons_eq_some.mp h'
      obtain rfl := Option.some.inj (hc.symm.trans hc')
      rw [List.take_succ_cons, List.take_succ_cons, List.cons.injEq, and_iff_right rfl]
      match n, rest, rest' with
      | 0, _, _ => rw [List.take_zero, List.take_zero]
      | n + 1, [], [] => rw [hlater, hlater']
      | n + 1, [], next' :: rest' => simp at hrest
      | n + 1, next :: rest, [] => simp at hrest
      | n + 1, next :: rest, next' :: rest' =>
        obtain ⟨z, hz, hlater⟩ := hlater
        obtain ⟨z', hz', hlater'⟩ := hlater'
        obtain rfl : next' = next := by
          rw [List.take_succ_cons, List.take_succ_cons, List.cons.injEq] at hrest
          exact hrest.1
        obtain rfl := Option.some.inj (hz.symm.trans hz')
        exact ih hlater hlater' hrest

/-- The document with another end of its horizon. -/
def Document.endingAt (stop : Float) (d : Document) : Document :=
  { d with horizon := d.horizon.map ({ · with stop }) }

/-- Two trajectories have the same time at a point, and the same value there for everything that is
declared. -/
structure Trajectory.SameAt (d : Document) (point : Nat) (r r' : Trajectory) : Prop where
  time : ∃ t, r.time[point]? = some t ∧ r'.time[point]? = some t
  stocks : ∀ s ∈ d.stocks, ∃ x, (r.stocks.find? s.id).bind (·[point]?) = some x ∧
    (r'.stocks.find? s.id).bind (·[point]?) = some x
  flows : ∀ f ∈ d.flows, ∃ x, (r.flows.find? f.id).bind (·[point]?) = some x ∧
    (r'.flows.find? f.id).bind (·[point]?) = some x
  auxiliaries : ∀ a ∈ d.auxiliaries, ∃ x, (r.auxiliaries.find? a.id).bind (·[point]?) = some x ∧
    (r'.auxiliaries.find? a.id).bind (·[point]?) = some x

theorem Trajectory.Shows.sameAt {d : Document} {overrides : NameMap Float}
    {horizon horizon' : Horizon} {moments moments' : List ByName.Moment} {r r' : Trajectory}
    (hr : r.Shows d overrides horizon moments) (hr' : r'.Shows d overrides horizon' moments')
    {point : Nat} {o : ByName.Moment} (ho : moments[point]? = some o)
    (ho' : moments'[point]? = some o) : r.SameAt d point r' where
  time := ⟨o.time, by simp [hr.time, ho], by simp [hr'.time, ho']⟩
  stocks s hs := ⟨o.stocks s.id, by simp [hr.stocks s hs, ho], by simp [hr'.stocks s hs, ho']⟩
  flows f hf := ⟨o.computed f.id, by simp [hr.flows f hf, ho], by simp [hr'.flows f hf, ho']⟩
  auxiliaries a ha := ⟨o.computed a.id, by simp [hr.auxiliaries a ha, ho],
    by simp [hr'.auxiliaries a ha, ho']⟩

section

variable {domain domain' : Domain} {d d' : Document} {m m' : Model}
  (h : domain.validate d = .ok m) (h' : domain'.validate d' = .ok m')
  (hsame : m'.document = m.document.endingAt m'.horizon.stop)

include h h' hsame

theorem Model.runs_of_endingAt : m'.Runs d ∧ m'.document.name = d.name := by
  have hd : d'.outline = d.outline ∧ d'.parameters = d.parameters ∧ d'.name = d.name := by
    obtain ⟨-, p, -, rfl⟩ := Domain.validate_eq_ok.mp h
    obtain ⟨-, p', -, rfl⟩ := Domain.validate_eq_ok.mp h'
    have houtline := congrArg Document.outline hsame
    have hparameters := congrArg Document.parameters hsame
    have hname := congrArg Document.name hsame
    exact ⟨houtline, hparameters, hname⟩
  obtain ⟨houtline, hparameters, hname⟩ := hd
  obtain ⟨-, p', hp', rfl⟩ := Domain.validate_eq_ok.mp h'
  have hself := Document.program_of_outline rfl hp'
  rw [hp', hparameters] at hself
  refine ⟨⟨(Model.runs_of_validate h).1.wellDeclared, Validation.program_eq_ok.mp ?_⟩, hname⟩
  exact (Document.program_of_outline houtline.symm hp').trans hself.symm

theorem Model.horizon_of_endingAt :
    m'.horizon = { m.horizon with stop := m'.horizon.stop } := by
  obtain ⟨-, p, -, rfl⟩ := Domain.validate_eq_ok.mp h
  obtain ⟨-, p', -, rfl⟩ := Domain.validate_eq_ok.mp h'
  exact Option.some.inj (congrArg Document.horizon hsame)

end

/-- Two runs of models that were accepted and whose documents differ in the end of their horizon
alone: at every point that is the last of neither run, they have the same time and the same values.
A later end never rewrites what came before. -/
theorem later_end_keeps_points (domain domain' : Domain) (d d' : Document) (m m' : Model)
    (h : domain.validate d = .ok m) (h' : domain'.validate d' = .ok m')
    (hsame : m'.document = m.document.endingAt m'.horizon.stop) (overrides : NameMap Float)
    (limit limit' : Nat) (r r' : Trajectory) (hr : m.simulate overrides limit = .ok r)
    (hr' : m'.simulate overrides limit' = .ok r') (point : Nat) (hpoint : point + 1 < r.points)
    (hpoint' : point + 1 < r'.points) : r.SameAt d point r' := by
  obtain ⟨hm, hname, -⟩ := Model.runs_of_validate h
  obtain ⟨hm', hname'⟩ := Model.runs_of_endingAt h h' hsame
  obtain ⟨moments, hmoments, hgrid, hshows⟩ := hm.exists_moments hname hr
  obtain ⟨moments', hmoments', hgrid', hshows'⟩ := hm'.exists_moments hname' hr'
  obtain ⟨-, grid, hbuild, hrun⟩ := ByName.run_eq_some.mp hmoments
  obtain ⟨-, grid', hbuild', hrun'⟩ := ByName.run_eq_some.mp hmoments'
  obtain rfl := Except.ok.inj (hbuild.symm.trans hgrid)
  obtain rfl := Except.ok.inj (hbuild'.symm.trans hgrid')
  rw [Model.horizon_of_endingAt h h' hsame] at hgrid'
  have htake := ByName.runFrom_take hrun hrun' (Grid.take_of_build hgrid hgrid' hpoint hpoint')
  have hmoment : moments'[point]? = moments[point]? := by
    have hget := congrArg (·[point]?) htake
    simpa only [List.getElem?_take_of_lt (Nat.lt_succ_self point)] using hget
  have hlt : point < moments.length := by
    have hlength := congrArg List.length hshows.time
    rw [List.length_map] at hlength
    exact hlength ▸ Nat.lt_of_succ_lt hpoint
  have ho := List.getElem?_eq_getElem hlt
  exact hshows.sameAt hshows' ho (hmoment.trans ho)

/-- The second run has an irregular last step. -/
theorem later_end_keeps_points_training :
    ∃ m m' r r', Domain.aerodin.validate training = .ok m ∧
      Domain.aerodin.validate (training.endingAt 1.75) = .ok m' ∧
      m.simulate .empty 10 = .ok r ∧ m'.simulate .empty 10 = .ok r' ∧
      r.time = [0, 0.5, 1] ∧ r'.time = [0, 0.5, 1, 1.5, 1.75] ∧ r.SameAt training 1 r' := by
  have hsome : ((Domain.aerodin.validate training).toOption.bind fun m ↦
      (Domain.aerodin.validate (training.endingAt 1.75)).toOption.bind fun m' ↦
        (m.simulate .empty 10).toOption.bind fun r ↦
          (m'.simulate .empty 10).toOption.bind fun r' ↦
            some (r.time, r'.time)) = some ([0, 0.5, 1], [0, 0.5, 1, 1.5, 1.75]) := by
    decide +kernel
  obtain ⟨m, hm, hsome⟩ := Option.bind_eq_some_iff.mp hsome
  obtain ⟨m', hm', hsome⟩ := Option.bind_eq_some_iff.mp hsome
  obtain ⟨r, hr, hsome⟩ := Option.bind_eq_some_iff.mp hsome
  obtain ⟨r', hr', hsome⟩ := Option.bind_eq_some_iff.mp hsome
  rw [Except.toOption_eq_some] at hm hm' hr hr'
  rw [Option.some_inj, Prod.mk.injEq] at hsome
  obtain ⟨htime, htime'⟩ := hsome
  have hsame : m'.document = m.document.endingAt m'.horizon.stop := by
    obtain ⟨-, p, -, rfl⟩ := Domain.validate_eq_ok.mp hm
    obtain ⟨-, p', -, rfl⟩ := Domain.validate_eq_ok.mp hm'
    rfl
  refine ⟨m, m', r, r', hm, hm', hr, hr', htime, htime', ?_⟩
  exact later_end_keeps_points .aerodin .aerodin training (training.endingAt 1.75) m m' hm hm'
    hsame .empty 10 10 r r' hr hr' 1 (by simp [Trajectory.points, htime])
    (by simp [Trajectory.points, htime'])

end SystemDynamics
