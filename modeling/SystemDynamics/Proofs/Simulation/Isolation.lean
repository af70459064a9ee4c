import SystemDynamics.Proofs.Simulation.Unread

namespace SystemDynamics

open Validation

def Trajectory.assign (r : Trajectory) (parameter : String) (x : Float) : Trajectory :=
  { r with settings := { r.settings with
      parameters := r.settings.parameters.insert parameter x } }

variable {m : Model} {d : Document} {p : Parameter} {o o' : NameMap Float}

theorem Parameter.settled_congr {q : Parameter} (h : o'.find? q.id = o.find? q.id) :
    q.settled o' = q.settled o := by
  rw [settled, settled, h]

theorem Document.WellDeclared.settled_eq (hw : d.WellDeclared)
    (hsame : ∀ id, id ≠ p.id → o'.find? id = o.find? id) {j : Nat} (hp : d.parameters[j]? = some p)
    {i : Nat} (hi : i ≠ j) :
    (d.parameters.map (·.settled o'))[i]? = (d.parameters.map (·.settled o))[i]? := by
  rw [List.getElem?_map, List.getElem?_map]
  cases hq : d.parameters[i]? with
  | none => rfl
  | some q =>
    have hne : q.id ≠ p.id := by
      intro he
      have hids : (d.idsOf .parameter)[i]? = (d.idsOf .parameter)[j]? := by
        simp [Document.idsOf, hp, hq, he]
      have hlt : i < (d.idsOf .parameter).length := by
        rw [Document.idsOf, List.length_map]
        exact (List.getElem?_eq_some_iff.mp hq).1
      exact hi ((List.getElem?_inj hlt (hw.idsOf_nodup _)).mp hids)
    rw [Option.map_some, Option.map_some, Parameter.settled_congr (hsame q.id hne)]

theorem Program.frame_sameBut {program : Program} {j : Nat} {xs xs' : List Float}
    (hlength : xs'.length = xs.length) (h : ∀ i, i ≠ j → xs'[i]? = xs[i]?) (time : Float)
    {stocks : List Float} (hstocks : stocks.length = program.layout.stocks.length) :
    Frame.SameBut (program.layout.firstParameter + j) (program.frame time stocks xs)
      (program.frame time stocks xs') where
  size := by simp [frame, hlength]
  slot s hs := by
    have hfirst : (time :: stocks).length = program.layout.firstParameter := by
      rw [List.length_cons, hstocks, Layout.firstParameter, Layout.firstStock, Nat.add_comm]
    simp only [frame, List.getElem?_toArray, List.append_assoc, List.getElem?_append, hlength]
    split
    case isTrue => rfl
    case isFalse hge =>
      rw [h _ (by omega)]

theorem settings_parameters_insert (hw : d.WellDeclared)
    (hsame : ∀ id, id ≠ p.id → o'.find? id = o.find? id) (hp : p ∈ d.parameters) :
    NameMap.ofList (d.parameters.map fun q ↦ (q.id, q.settled o')) =
      (NameMap.ofList (d.parameters.map fun q ↦ (q.id, q.settled o))).insert p.id
        (p.settled o') := by
  have hnodup := hw.idsOf_nodup .parameter
  obtain ⟨before, after, hparameters⟩ := List.append_of_mem hp
  rw [Document.idsOf, hparameters, List.map_append, List.map_cons, List.nodup_middle,
    List.nodup_cons, List.mem_append, not_or] at hnodup
  obtain ⟨⟨hbefore, hafter⟩, -⟩ := hnodup
  have hsettled : ∀ qs : List Parameter, p.id ∉ qs.map (·.id) →
      (qs.map fun q ↦ (q.id, q.settled o')) = qs.map fun q ↦ (q.id, q.settled o) := by
    intro qs hqs
    refine List.map_congr_left fun q hq ↦ ?_
    have hne : q.id ≠ p.id := fun he ↦ hqs (he ▸ List.mem_map_of_mem hq)
    rw [Parameter.settled_congr (hsame q.id hne)]
  have hkeys : p.id ∉ (after.map fun q ↦ (q.id, q.settled o)).map (·.1) := by
    rwa [List.map_map]
  simp only [hparameters, List.map_append, List.map_cons, hsettled before hbefore,
    hsettled after hafter, NameMap.insert_ofList_append hkeys]

namespace Model.Runs

variable (hm : m.Runs d)

include hm

theorem not_mem_names {j : Nat} (hp : d.parameters[j]? = some p)
    (hunread : ∀ reader, ¬ d.Reads reader p.id) {i : Instruction}
    (hi : i ∈ m.program.instructions) :
    m.program.layout.firstParameter + j ∉ i.term.names := by
  obtain ⟨order, ho, hcompile⟩ := hm.compiled
  obtain ⟨-, hone, hlayout, -⟩ := Document.compile_eq_ok.mp hcompile
  intro hslot
  obtain ⟨e, t, name, he, ht, hname, hresolve⟩ := Document.exists_name_of_slot (hone i hi) hslot
  have hid : (d.idsOf .parameter)[j]? = some p.id := by simp [Document.idsOf, hp]
  have hnode := Document.nodes_getElem?_of_idsOf hid
  rw [Document.resolve_eq_ok, hlayout] at hresolve
  have hfirst : (Layout.ofDocument d).firstParameter = d.firstRank .parameter + 1 := by
    simp only [Layout.firstParameter, Layout.firstStock, Layout.ofDocument, List.length_map,
      Document.firstRank, Nat.add_comm]
  rcases Layout.slot?_cases hresolve with ⟨-, hzero⟩ | ⟨n, v, -, hv, rfl, hn⟩
  · omega
  · obtain rfl : n = d.firstRank .parameter + j := by omega
    obtain rfl := Option.some.inj (hv.symm.trans hnode)
    have hmem := Document.mem_equations_of_equation he
    exact hunread e.1 ⟨e.2, t, hmem, ht, hname,
      Document.mem_ids_of_idsOf (List.mem_of_getElem? hid)⟩

/-- Where no equation reads a parameter, its value is of no consequence. -/
theorem simulate_unread (hfinite : o.values.all Float.isFinite)
    (hfinite' : o'.values.all Float.isFinite)
    (hsame : ∀ id, id ≠ p.id → o'.find? id = o.find? id) (hp : p ∈ d.parameters)
    (hunread : ∀ reader, ¬ d.Reads reader p.id) (limit : Nat) :
    m.simulate o' limit = (m.simulate o limit).map (·.assign p.id (p.settled o')) := by
  have hw := hm.wellDeclared
  obtain ⟨hlayout, hstocks, -⟩ := hm.program_eq
  obtain ⟨j, hj⟩ := List.getElem?_of_mem hp
  have hlt : j < m.program.layout.parameters.length := by
    rw [hlayout, Layout.ofDocument, List.length_map]
    exact (List.getElem?_eq_some_iff.mp hj).1
  have hslot : m.program.layout.firstParameter + j < m.program.layout.firstFlow := by
    simp only [Layout.firstFlow, Layout.firstAuxiliary]
    omega
  have hlength : m.program.initialStocks.length = m.program.layout.stocks.length := by
    rw [hstocks, hlayout, Layout.ofDocument, List.length_map, List.length_map]
  have hframe := Program.frame_sameBut (by rw [List.length_map, List.length_map])
    (fun i hi ↦ hw.settled_eq hsame hj hi) 0 hlength
  have hsettings : m.settings (d.parameters.map (·.settled o')) =
      { m.settings (d.parameters.map (·.settled o)) with
        parameters := (m.settings (d.parameters.map (·.settled o))).parameters.insert p.id
          (p.settled o') } := by
    have hinsert := settings_parameters_insert hw hsame hp
    rw [← hm.settings_parameters, ← hm.settings_parameters] at hinsert
    rw [← hinsert]
    rfl
  rw [simulate, simulate, hm.resolve_eq hfinite, hm.resolve_eq hfinite']
  cases hgrid : Grid.build m.horizon.start m.horizon.stop m.horizon.step limit with
  | error points => rfl
  | ok grid =>
    have hrecord := recordFrom_sameBut (fun i ↦ hm.not_mem_names hj hunread) hslot grid 0
      m.program.initialStocks hframe (.ofDimension m.program.initialStocks.length)
      (fun _ _ ↦ rfl : (Ledger.blank m.program.layout.size grid.length).SameBut _ _)
    have hfinish : ∀ l l' : Ledger, l.SameBut (m.program.layout.firstParameter + j) l' →
        m.program.layout.trajectory l' (m.settings (d.parameters.map (·.settled o'))) =
          (m.program.layout.trajectory l (m.settings (d.parameters.map (·.settled o)))).assign
            p.id (p.settled o') := by
      intro l l' hl
      rw [Layout.trajectory_sameBut hlt hl, hsettings]
      rfl
    have hmatch : Except.Matches (fun r r' ↦ r' = Trajectory.assign r p.id (p.settled o')) _ _ :=
      hrecord.bind fun l l' hl ↦ .ok (hfinish l l' hl)
    exact hmatch.eq_map fun _ _ h ↦ h

end Model.Runs

/-- Two runs of a model with overrides that differ at one parameter. If both succeed, they have the
same series beyond the influence of the parameter. If no equation reads it, they come to the same,
be it a failure, up to the value that the parameter is said to have. -/
theorem override_isolation (domain : Domain) (d : Document) (m : Model)
    (h : domain.validate d = .ok m) (p : Parameter) (hp : p ∈ d.parameters)
    (o o' : NameMap Float) (hfinite : o.values.all Float.isFinite)
    (hfinite' : o'.values.all Float.isFinite)
    (hsame : ∀ id, id ≠ p.id → o'.find? id = o.find? id) (limit : Nat) :
    (∀ r r', m.simulate o limit = .ok r → m.simulate o' limit = .ok r' →
      r.SameBeyond d p.id r') ∧
    ((∀ reader, ¬ d.Reads reader p.id) →
      m.simulate o' limit = (m.simulate o limit).map (·.assign p.id (p.settled o'))) := by
  obtain ⟨hm, hname, -⟩ := Model.runs_of_validate h
  obtain ⟨hviolations, program, hprogram, -⟩ := Domain.validate_eq_ok.mp h
  have hacceptable := Document.acceptable_of_violations hviolations ⟨program, hprogram⟩
  have hdeclared := fun id (hid : d.Influences p.id id) ↦
    hacceptable.mem_ids_of_influences hp hid
  refine ⟨?_, fun hunread ↦ hm.simulate_unread hfinite hfinite' hsame hp hunread limit⟩
  intro r r' hr hr'
  obtain ⟨moments, hmoments, -, hshows⟩ := hm.exists_moments hname hr
  obtain ⟨moments', hmoments', -, hshows'⟩ := hm.exists_moments hname hr'
  refine hshows.sameBeyond hshows' ?_
  obtain ⟨-, grid, hgrid, hrun⟩ := ByName.run_eq_some.mp hmoments
  obtain ⟨-, grid', hgrid', hrun'⟩ := ByName.run_eq_some.mp hmoments'
  obtain rfl := Except.ok.inj (hgrid.symm.trans hgrid')
  exact ByName.runFrom_same hsame hdeclared (fun _ _ ↦ rfl) hrun hrun'

/-- Juniors are hired and paid. The training time is declared, but nothing reads it. -/
def payroll : Document where
  name := "Payroll"
  description := "Juniors are hired and paid."
  stocks := [{ id := "cash_reserves", name := "Cash", initialValue := some 100 },
             { id := "junior_engineers", name := "Juniors", initialValue := some 8 }]
  parameters := [{ id := "overhead_rate", name := "Overhead", value := some 0.5 },
                 { id := "training_time", name := "Training time", value := some 2 }]
  flows := [{ id := "expenses", name := "Expenses", source := some "cash_reserves",
              equation := "overhead_rate * junior_engineers" },
            { id := "hiring_rate", name := "Hiring", target := some "junior_engineers",
              equation := "1" }]
  horizon := some ⟨0, 2, 1, .months⟩

theorem reads_payroll {reader read : String} (h : payroll.Reads reader read) :
    reader = "expenses" ∧ read ∈ ["overhead_rate", "junior_engineers"] := by
  have hnames : payroll.equations.map (fun e ↦ (e.1, (Equation.parse e.2).toOption.map (·.names))) =
      [("expenses", some ["overhead_rate", "junior_engineers"]), ("hiring_rate", some [])] := by
    decide +kernel
  obtain ⟨equation, t, he, ht, hread, -⟩ := h
  have hmem : (reader, some t.names) ∈
      [("expenses", some ["overhead_rate", "junior_engineers"]), ("hiring_rate", some [])] := by
    rw [← hnames, List.mem_map]
    exact ⟨(reader, equation), he, by rw [ht]; rfl⟩
  simp only [List.mem_cons, Prod.mk.injEq, Option.some.injEq, List.not_mem_nil, or_false] at hmem
  rcases hmem with ⟨rfl, hnames⟩ | ⟨-, hnames⟩
  · exact ⟨rfl, hnames ▸ hread⟩
  · simp [hnames] at hread

theorem influences_payroll {id : String} (h : payroll.Influences "overhead_rate" id) :
    id ∈ ["overhead_rate", "expenses", "cash_reserves"] := by
  induction h with
  | self => decide
  | reads _ hreads => simp [(reads_payroll hreads).1]
  | moves hf _ hend ih =>
    simp only [payroll, List.mem_cons, List.not_mem_nil, or_false] at hf
    rcases hf with rfl | rfl
    · simp_all
    · simp at ih

theorem override_isolation_payroll :
    ∃ m r r', Domain.aerodin.validate payroll = .ok m ∧ m.simulate .empty 10 = .ok r ∧
      m.simulate (.ofList [("overhead_rate", 2)]) 10 = .ok r' ∧
      r'.stocks.find? "junior_engineers" = r.stocks.find? "junior_engineers" ∧
      m.simulate (.ofList [("training_time", 5)]) 10 = .ok (r.assign "training_time" 5) := by
  have hsome : ((Domain.aerodin.validate payroll).toOption.bind fun m ↦
      (m.simulate .empty 10).toOption.bind fun _ ↦
        (m.simulate (.ofList [("overhead_rate", 2)]) 10).toOption).isSome := by
    decide +kernel
  obtain ⟨r', hr'⟩ := Option.isSome_iff_exists.mp hsome
  obtain ⟨m, hm, hr'⟩ := Option.bind_eq_some_iff.mp hr'
  obtain ⟨r, hr, hr'⟩ := Option.bind_eq_some_iff.mp hr'
  rw [Except.toOption_eq_some] at hm hr hr'
  have hsame : ∀ (name : String) (x : Float) (id : String), id ≠ name →
      (NameMap.ofList [(name, x)]).find? id = NameMap.empty.find? id := by
    intro name x id hid
    rw [NameMap.find?_ofList]
    exact (NameMap.lookup_cons (name, x) [] id).trans (if_neg hid)
  have hoverhead := override_isolation .aerodin payroll m hm
    { id := "overhead_rate", name := "Overhead", value := some 0.5 } (by decide) .empty
    (.ofList [("overhead_rate", 2)]) rfl (by decide +kernel) (hsame _ _) 10
  have htraining := override_isolation .aerodin payroll m hm
    { id := "training_time", name := "Training time", value := some 2 } (by decide) .empty
    (.ofList [("training_time", 5)]) rfl (by decide +kernel) (hsame _ _) 10
  refine ⟨m, r, r', hm, hr, hr', ?_, ?_⟩
  · refine (hoverhead.1 r r' hr hr').stocks
      { id := "junior_engineers", name := "Juniors", initialValue := some 8 } (by decide) ?_
    intro h
    exact absurd (influences_payroll h) (by decide)
  · rw [htraining.2 ?_, hr]
    · rfl
    · intro reader h
      exact absurd (reads_payroll h).2 (by decide)

end SystemDynamics
