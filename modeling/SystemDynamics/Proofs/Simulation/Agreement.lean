import SystemDynamics.Proofs.Simulation.Evaluation
import SystemDynamics.Proofs.Simulation.Ledger
import SystemDynamics.Proofs.Simulation.RungeKutta

namespace SystemDynamics

open ByName (Values given? slope)
open Dependency (Graph)

/-- A model whose program comes from a document. -/
structure Model.Runs (m : Model) (d : Document) : Prop where
  wellDeclared : d.WellDeclared
  compiled : ∃ order, (Graph.ofDocument d).evaluationOrder = .ok order ∧
    d.compile order = .ok m.program

variable {m : Model} {d : Document} {overrides : NameMap Float}

theorem given?_eq_none (hw : d.WellDeclared) (time : Float) (y : Values) :
    ∀ e ∈ d.equations, given? d overrides time y e.1 = none := by
  intro e he
  simp only [Document.equations, List.mem_append, List.mem_map] at he
  rcases he with ⟨f, hf, rfl⟩ | ⟨a, ha, rfl⟩
  · have hmem : f.id ∈ d.idsOf .flow := List.mem_map_of_mem hf
    exact Document.given?_computed overrides time y hw (by decide) (by decide) hmem
  · have hmem : a.id ∈ d.idsOf .auxiliary := List.mem_map_of_mem ha
    exact Document.given?_computed overrides time y hw (by decide) (by decide) hmem

/-- A ledger shows moments in its columns from a point on, and before that what it held. -/
def Recorded (d : Document) (overrides : NameMap Float) (point : Nat) (l l' : Ledger)
    (moments : List ByName.Moment) : Prop :=
  ∃ frames : List Frame,
    List.Forall₂ (fun f o ↦ f.Shows d (given? d overrides o.time o.stocks) o.computed)
      frames moments ∧
    ∀ slot < (Layout.ofDocument d).size,
      l'.row slot = (l.row slot).take point ++ frames.map (·.getD slot 0)

theorem Recorded.nil {point : Nat} {l : Ledger}
    (hl : l.HasShape (Layout.ofDocument d).size point) : Recorded d overrides point l l [] := by
  refine ⟨[], .nil, ?_⟩
  intro slot hslot
  rw [List.map_nil, List.append_nil, List.take_of_length_le (hl.length slot hslot).le]

theorem Recorded.cons {point rest : Nat} {l l' : Ledger} {f : Frame} {o : ByName.Moment}
    {moments : List ByName.Moment}
    (hl : l.HasShape (Layout.ofDocument d).size (point + (rest + 1)))
    (hf : f.Shows d (given? d overrides o.time o.stocks) o.computed)
    (h : Recorded d overrides (point + 1) (l.record point f) l' moments) :
    Recorded d overrides point l l' (o :: moments) := by
  obtain ⟨frames, hframes, hrows⟩ := h
  refine ⟨f :: frames, .cons hf hframes, ?_⟩
  intro slot hslot
  rw [hrows slot hslot, Ledger.take_row_record hl (by omega) hf.holds.size hslot, List.map_cons,
    List.append_assoc, List.singleton_append]

theorem Recorded.row_eq {l l' : Ledger} {moments : List ByName.Moment}
    (h : Recorded d overrides 0 l l' moments) {slot : Nat}
    (hslot : slot < (Layout.ofDocument d).size) {value : ByName.Moment → Float}
    (hvalue : ∀ (f : Frame) o, f.Shows d (given? d overrides o.time o.stocks) o.computed →
      f[slot]? = some (value o)) :
    l'.row slot = moments.map value := by
  obtain ⟨frames, hframes, hrows⟩ := h
  rw [hrows slot hslot, List.take_zero, List.nil_append]
  clear hrows
  induction hframes with
  | nil => rfl
  | cons hf _ ih =>
    rw [List.map_cons, List.map_cons, ih, Array.getD_eq_getD_getElem?, hvalue _ _ hf]
    rfl

theorem Recorded.find?_series {l l' : Ledger} {moments : List ByName.Moment}
    (h : Recorded d overrides 0 l l' moments) (hw : d.WellDeclared) {kind : Kind} {first : Nat}
    (hfirst : first = d.firstRank kind + 1) {i : Nat} {id : String}
    (hid : (d.idsOf kind)[i]? = some id) {value : ByName.Moment → Float}
    (hvalue : ∀ (f : Frame) o, f.Shows d (given? d overrides o.time o.stocks) o.computed →
      f[d.firstRank kind + i + 1]? = some (value o)) :
    (l'.series first (d.idsOf kind)).find? id = some (moments.map value) := by
  have hv := (List.getElem?_eq_some_iff.mp (Document.nodes_getElem?_of_idsOf hid)).1
  have hslot : first + i = d.firstRank kind + i + 1 := by omega
  rw [Ledger.find?_series (hw.idsOf_nodup kind) hid, hslot, h.row_eq ?_ hvalue]
  rw [Layout.size_ofDocument]
  omega

theorem Frame.Shows.getElem? {f : Frame} {given : String → Option Float} {c : Values}
    (hf : f.Shows d given c) {kind : Kind} {i : Nat} {v : Computed} {e : String × String}
    (he : d.equation? v = some e) (hid : (d.idsOf kind)[i]? = some e.1)
    (hv : Variable.computed? ⟨e.1, kind, i⟩ = some v) :
    f[d.firstRank kind + i + 1]? = some (c e.1) := by
  rw [← Layout.slot_of_node (Document.nodes_getElem?_of_idsOf hid) hv]
  exact hf.computed v e he

/-- A trajectory with the series of moments: one under each declared id, with the values that the
id has at the moments. -/
structure Trajectory.Shows (d : Document) (overrides : NameMap Float) (horizon : Horizon)
    (moments : List ByName.Moment) (r : Trajectory) : Prop where
  ids_nodup : d.ids.Nodup
  time : r.time = moments.map (·.time)
  stock_names : r.stocks.names.Perm (d.stocks.map (·.id))
  flow_names : r.flows.names.Perm (d.flows.map (·.id))
  auxiliary_names : r.auxiliaries.names.Perm (d.auxiliaries.map (·.id))
  stocks : ∀ s ∈ d.stocks, r.stocks.find? s.id = some (moments.map (·.stocks s.id))
  flows : ∀ f ∈ d.flows, r.flows.find? f.id = some (moments.map (·.computed f.id))
  auxiliaries : ∀ a ∈ d.auxiliaries,
    r.auxiliaries.find? a.id = some (moments.map (·.computed a.id))
  modelName : r.settings.modelName = d.name
  parameter_names : r.settings.parameters.names.Perm (d.parameters.map (·.id))
  parameters : ∀ p ∈ d.parameters, r.settings.parameters.find? p.id = some (p.settled overrides)
  horizon : r.settings.horizon = horizon

namespace Trajectory.Shows

variable {horizon : Horizon} {moments : List ByName.Moment} {r : Trajectory}
  (hshows : r.Shows d overrides horizon moments) (hw : d.WellDeclared)

include hshows hw

theorem mem_stocks {xs : List Float} :
    xs ∈ r.stocks.values ↔ ∃ s ∈ d.stocks, xs = moments.map (·.stocks s.id) :=
  NameMap.mem_values_of_names (hw.idsOf_nodup .stock) hshows.stock_names hshows.stocks

theorem mem_flows {xs : List Float} :
    xs ∈ r.flows.values ↔ ∃ f ∈ d.flows, xs = moments.map (·.computed f.id) :=
  NameMap.mem_values_of_names (hw.idsOf_nodup .flow) hshows.flow_names hshows.flows

theorem mem_auxiliaries {xs : List Float} :
    xs ∈ r.auxiliaries.values ↔ ∃ a ∈ d.auxiliaries, xs = moments.map (·.computed a.id) :=
  NameMap.mem_values_of_names (hw.idsOf_nodup .auxiliary) hshows.auxiliary_names
    hshows.auxiliaries

theorem mem_parameters {x : Float} :
    x ∈ r.settings.parameters.values ↔ ∃ p ∈ d.parameters, x = p.settled overrides :=
  NameMap.mem_values_of_names (hw.idsOf_nodup .parameter) hshows.parameter_names
    hshows.parameters

end Trajectory.Shows

namespace Model.Runs

variable (hm : m.Runs d)

include hm

theorem program_eq : m.program.layout = Layout.ofDocument d ∧
    m.program.initialStocks = d.stocks.map (·.initialValue.getD 0) ∧
    m.program.parameters = d.parameters.map (·.value.getD 0) ∧
    m.program.inflows = wiring d (·.target) ∧ m.program.outflows = wiring d (·.source) := by
  obtain ⟨order, -, hp⟩ := hm.compiled
  exact (Document.compile_eq_ok.mp hp).2.2

/-- One evaluation finds the values by name, and leaves the frame ready for the next. -/
theorem evaluate_agrees {f : Frame} (hf : f.Ready d overrides) (time : Float) (y : Values) :
    Except.Agrees
      (fun f' c ↦ f'.Ready d overrides ∧ f'.Shows d (given? d overrides time y) c)
      (m.evaluate f time ((d.idsOf .stock).map y)) (ByName.computedAt d overrides time y) := by
  obtain ⟨order, ho, hp⟩ := hm.compiled
  have hw := hm.wellDeclared
  refine Except.Agrees.mapError ?_ _
  exact (run_agrees hw (given?_eq_none hw time y) ho hp (hf.load hw)).mono fun f' c hc ↦
    ⟨hc.holds.ready hw, hc⟩

theorem rates_eq {f : Frame} {given : String → Option Float} {c : Values}
    (hf : f.Shows d given c) :
    m.program.rates (m.program.flowIn f) = (d.idsOf .stock).map (slope d c) := by
  obtain ⟨hlayout, -, -, hin, hout⟩ := hm.program_eq
  have hflow : ∀ i fl, d.flows[i]? = some fl → m.program.flowIn f (0 + i) = c fl.id := by
    intro i fl hi
    have hv := hf.computed (.flow i) (fl.id, fl.equation) (by simp [Document.equation?, hi])
    rw [Program.flowIn, hlayout, Nat.zero_add, Array.getD_eq_getD_getElem?]
    exact congrArg (·.getD 0) hv
  have hnodup := hm.wellDeclared.idsOf_nodup .stock
  rw [Program.rates, hin, hout, wiring_eq hnodup, wiring_eq hnodup, List.zipWith_map,
    List.zipWith_self, Document.idsOf, List.map_map]
  refine List.map_congr_left ?_
  intro s _
  rw [netFlow, Function.comp_apply, ByName.slope]
  congr 2
  · exact map_filterMap_zipIdx d.flows 0 (fun fl ↦ fl.target == some s.id) hflow
  · exact map_filterMap_zipIdx d.flows 0 (fun fl ↦ fl.source == some s.id) hflow

theorem rate_agrees : RungeKutta.RateAgrees (Frame.Ready d overrides) (d.idsOf .stock) m.rate
    fun time y ↦ (ByName.computedAt d overrides time y).map (slope d) := by
  intro f time y buffer hf
  have h := hm.evaluate_agrees hf time y
  rw [Model.rate]
  dsimp only
  cases hc : ByName.computedAt d overrides time y with
  | none =>
    rw [hc] at h
    obtain ⟨e, he⟩ := h
    rw [he]
    exact ⟨_, _, _, rfl⟩
  | some c =>
    rw [hc] at h
    obtain ⟨f', hf', hready, hshows⟩ := h
    rw [hf']
    exact ⟨f', by simp only [hm.rates_eq hshows], hready⟩

theorem recordFrom_agrees (grid : List Float) (point : Nat) (y : Values) {f : Frame}
    (hf : f.Ready d overrides) {s : RungeKutta Float} (hs : s.Fits d.stocks.length) {l : Ledger}
    (hl : l.HasShape (Layout.ofDocument d).size (point + grid.length)) :
    Except.Agrees (Recorded d overrides point l)
      (m.recordFrom grid point ((d.idsOf .stock).map y) f s l)
      (ByName.runFrom d overrides grid y) := by
  induction grid generalizing point y f s l with
  | nil =>
    exact ⟨l, rfl, .nil hl⟩
  | cons t grid ih =>
    have hstart := hm.evaluate_agrees hf t y
    cases grid with
    | nil =>
      refine hstart.bind fun f' c hc ↦ ⟨_, rfl, ?_⟩
      refine .cons (o := ⟨t, y, c⟩) hl hc.2 (.nil ?_)
      exact hl.record point _
    | cons next grid =>
      refine hstart.bind ?_
      intro f' c hc
      have hl' : (l.record point f').HasShape (Layout.ofDocument d).size
          (point + 1 + (next :: grid).length) := by
        rw [Nat.add_assoc, Nat.add_comm 1]
        exact hl.record point _
      have hstep := RungeKutta.stepWith_agrees hm.rate_agrees hc.1
        (by rwa [Document.idsOf, List.length_map]) t (next - t) y
      rw [← ByName.advance] at hstep
      dsimp only
      cases hy : ByName.advance d overrides t (next - t) y with
      | none =>
        rw [hy] at hstep
        obtain ⟨w, s', e, he⟩ := hstep
        rw [he]
        exact ⟨e, rfl⟩
      | some y' =>
        rw [hy] at hstep
        obtain ⟨f'', s', he, hf'', hs'⟩ := hstep
        rw [he]
        rw [Document.idsOf, List.length_map] at hs'
        refine (ih (point + 1) y' hf'' hs' hl').bind_some (g := (⟨t, y, c⟩ :: ·)) ?_
        intro l' moments hmoments
        exact hmoments.cons hl hc.2

theorem resolve_agrees :
    Except.Agrees (fun parameters (_ : Unit) ↦ parameters = d.parameters.map (·.settled overrides))
      (m.resolve overrides) (guard (overrides.values.all Float.isFinite)) := by
  obtain ⟨hlayout, -, hparameters, -⟩ := hm.program_eq
  rw [Model.resolve]
  cases hfind : overrides.entries.find? (!·.2.isFinite) with
  | some e =>
    have he := List.find?_some hfind
    have hall : overrides.values.all Float.isFinite = false := by
      rw [List.all_eq_false]
      exact ⟨e.2, List.mem_map_of_mem (List.mem_of_find?_eq_some hfind), by simpa using he⟩
    simp only [hall]
    exact ⟨_, rfl⟩
  | none =>
    have hall : overrides.values.all Float.isFinite = true := by
      rw [List.find?_eq_none] at hfind
      rw [NameMap.values, List.all_map, List.all_eq_true]
      intro e he
      simpa using hfind e he
    simp only [hall]
    refine ⟨_, rfl, ?_⟩
    rw [hlayout, hparameters, Layout.ofDocument, List.zipWith_map, List.zipWith_self]
    rfl

theorem initialStocks_eq : m.program.initialStocks = (d.idsOf .stock).map (ByName.initial d) := by
  rw [hm.program_eq.2.1, Document.idsOf, List.map_map]
  refine List.map_congr_left ?_
  intro s hs
  rw [Function.comp_apply, ByName.initial, hm.wellDeclared.stock?_eq hs]
  rfl

theorem frame_ready (time : Float) (stocks : List Float) (h : stocks.length = d.stocks.length) :
    (m.program.frame time stocks (d.parameters.map (·.settled overrides))).Ready d overrides where
  size := by
    rw [Program.frame, hm.program_eq.1, Layout.size_ofDocument]
    simp [Document.nodes, Layout.ofDocument, h]
  parameters j p hp := by
    have hj := (List.getElem?_eq_some_iff.mp hp).1
    have hslot : (Layout.ofDocument d).firstParameter + j = (time :: stocks).length + j := by
      simp only [Layout.firstParameter, Layout.firstStock, Layout.ofDocument, List.length_map,
        List.length_cons]
      omega
    rw [Program.frame, hslot, List.getElem?_toArray, List.getElem?_append_left (by simp; omega),
      List.getElem?_append_right (by omega), Nat.add_sub_cancel_left, List.getElem?_map, hp]
    rfl

/-- A run of a model succeeds just when the run by name does, and then with a ledger of its
moments. -/
theorem simulate_agrees (limit : Nat) :
    Except.Agrees (fun r moments ↦
        Grid.build m.horizon.start m.horizon.stop m.horizon.step limit =
          .ok (moments.map (·.time)) ∧
        ∃ blank l, Recorded d overrides 0 blank l moments ∧
          r = (Layout.ofDocument d).trajectory l
            (m.settings (d.parameters.map (·.settled overrides))))
      (m.simulate overrides limit) (ByName.run d overrides m.horizon limit) := by
  obtain ⟨hlayout, -⟩ := hm.program_eq
  refine hm.resolve_agrees.bind ?_
  intro parameters _ hparameters
  refine ((Except.agrees_toOption _).mapError _).bind ?_
  intro grid grid' hgrid
  obtain ⟨rfl, hgrid⟩ := hgrid
  rw [hparameters, hm.initialStocks_eq, hlayout]
  have hlength : ((d.idsOf .stock).map (ByName.initial d)).length = d.stocks.length := by
    rw [List.length_map, Document.idsOf, List.length_map]
  refine (hm.recordFrom_agrees grid 0 (ByName.initial d) (hm.frame_ready 0 _ hlength) ?_ ?_).bind_ok
    fun l moments hrun hl ↦ ?_
  · rw [hlength]
    exact RungeKutta.fits_ofDimension _
  · rw [Nat.zero_add]
    exact Ledger.blank_hasShape _ _
  · rw [ByName.runFrom_time hrun]
    exact ⟨hgrid, _, l, hl, rfl⟩

theorem settings_parameters :
    (m.settings (d.parameters.map (·.settled overrides))).parameters =
      NameMap.ofList (d.parameters.map fun p ↦ (p.id, p.settled overrides)) := by
  rw [Model.settings, hm.program_eq.1, Layout.ofDocument, List.zip_map']

theorem trajectory_shows (hname : m.document.name = d.name) {l l' : Ledger}
    {moments : List ByName.Moment} (h : Recorded d overrides 0 l l' moments) :
    ((Layout.ofDocument d).trajectory l'
      (m.settings (d.parameters.map (·.settled overrides)))).Shows d overrides m.horizon
      moments := by
  have hw := hm.wellDeclared
  have hstocks := hw.idsOf_nodup .stock
  have hflows := hw.idsOf_nodup .flow
  have hauxiliaries := hw.idsOf_nodup .auxiliary
  have hparameters := hw.idsOf_nodup .parameter
  have hkeys : (d.parameters.map fun p ↦ (p.id, p.settled overrides)).map (·.1) =
      d.idsOf .parameter := by
    rw [List.map_map]
    rfl
  refine ⟨hw.ids_nodup, ?_, Ledger.names_series_perm hstocks, Ledger.names_series_perm hflows,
    Ledger.names_series_perm hauxiliaries, ?_, ?_, ?_, hname, ?_, ?_, rfl⟩
  · refine h.row_eq (by rw [Layout.size_ofDocument]; omega) ?_
    intro f o hf
    rw [hf.holds.time "t" (by decide), Document.given?_time _ _ _ (by decide)]
  · intro s hs
    obtain ⟨i, hi⟩ := List.getElem?_of_mem hs
    have hid : (d.idsOf .stock)[i]? = some s.id := by simp [Document.idsOf, hi]
    refine h.find?_series hw rfl hid ?_
    intro f o hf
    rw [hf.holds.declared _ _ (Document.nodes_getElem?_of_idsOf hid) rfl]
    exact Document.given?_stock _ _ _ hw hs
  · intro fl hfl
    obtain ⟨i, hi⟩ := List.getElem?_of_mem hfl
    have hid : (d.idsOf .flow)[i]? = some fl.id := by simp [Document.idsOf, hi]
    refine h.find?_series hw ?_ hid fun f o hf ↦
      hf.getElem? (v := .flow i) (e := (fl.id, fl.equation)) ?_ hid rfl
    · simp only [Layout.firstFlow, Layout.firstAuxiliary, Layout.firstParameter, Layout.firstStock,
        Layout.ofDocument, List.length_map, Document.firstRank]
      omega
    · simp [Document.equation?, hi]
  · intro a ha
    obtain ⟨i, hi⟩ := List.getElem?_of_mem ha
    have hid : (d.idsOf .auxiliary)[i]? = some a.id := by simp [Document.idsOf, hi]
    refine h.find?_series hw ?_ hid fun f o hf ↦
      hf.getElem? (v := .auxiliary i) (e := (a.id, a.equation)) ?_ hid rfl
    · simp only [Layout.firstAuxiliary, Layout.firstParameter, Layout.firstStock,
        Layout.ofDocument, List.length_map, Document.firstRank]
      omega
    · simp [Document.equation?, hi]
  · rw [Layout.trajectory, hm.settings_parameters]
    have hperm := NameMap.names_ofList_perm (hkeys ▸ hparameters)
    rwa [hkeys] at hperm
  · intro p hp
    rw [Layout.trajectory, hm.settings_parameters]
    exact NameMap.find?_ofList_of_mem (hkeys ▸ hparameters)
      (List.mem_map.mpr ⟨p, hp, rfl⟩)

theorem exists_moments (hname : m.document.name = d.name) {limit : Nat} {r : Trajectory}
    (hr : m.simulate overrides limit = .ok r) :
    ∃ moments, ByName.run d overrides m.horizon limit = some moments ∧
      Grid.build m.horizon.start m.horizon.stop m.horizon.step limit = .ok r.time ∧
      r.Shows d overrides m.horizon moments := by
  obtain ⟨moments, hmoments, hgrid, blank, l, hl, rfl⟩ :=
    Except.Agrees.of_ok (hm.simulate_agrees limit) hr
  have hshows := hm.trajectory_shows hname hl
  exact ⟨moments, hmoments, by rw [hgrid, hshows.time], hshows⟩

end Model.Runs

theorem Model.runs_of_validate {domain : Domain} (h : domain.validate d = .ok m) :
    m.Runs d ∧ m.document.name = d.name ∧
      m.horizon = d.horizon.getD domain.world.horizon := by
  obtain ⟨hviolations, p, hp, rfl⟩ := Domain.validate_eq_ok.mp h
  exact ⟨⟨Validation.wellDeclared hviolations, Validation.program_eq_ok.mp hp⟩, rfl, rfl⟩

/-- A model that was accepted runs as its document does by name: for all overrides and limits one
run succeeds just when the other does, over the same grid and with the same values. -/
theorem simulate_is_run_by_name (domain : Domain) (d : Document) (m : Model)
    (h : domain.validate d = .ok m) (overrides : NameMap Float) (limit : Nat) :
    ((∃ r, m.simulate overrides limit = .ok r) ↔
      ∃ moments, ByName.run d overrides (d.horizon.getD domain.world.horizon) limit =
        some moments) ∧
    ∀ r, m.simulate overrides limit = .ok r →
      ∃ moments, ByName.run d overrides (d.horizon.getD domain.world.horizon) limit =
          some moments ∧
        Grid.build m.horizon.start m.horizon.stop m.horizon.step limit = .ok r.time ∧
        r.Shows d overrides (d.horizon.getD domain.world.horizon) moments := by
  obtain ⟨hm, hname, hhorizon⟩ := Model.runs_of_validate h
  rw [← hhorizon]
  exact ⟨Except.Agrees.isOk_iff (hm.simulate_agrees limit), fun r hr ↦ hm.exists_moments hname hr⟩

/-- Engineers are trained. The gap is declared before the workforce that it is computed from. -/
def training : Document where
  name := "Training"
  description := "Juniors become skilled engineers."
  stocks := [{ id := "junior_engineers", name := "Juniors", initialValue := some 8 },
             { id := "skilled_engineers", name := "Skilled", initialValue := some 4 }]
  parameters := [{ id := "training_time", name := "Training time", value := some 2 }]
  auxiliaries := [{ id := "workforce_gap", name := "Gap",
                    equation := "total_workforce - skilled_engineers * t" },
                  { id := "total_workforce", name := "Workforce",
                    equation := "junior_engineers + skilled_engineers" }]
  flows := [{ id := "promotion_rate", name := "Promotion", source := some "junior_engineers",
              target := some "skilled_engineers", equation := "workforce_gap / training_time" }]
  horizon := some ⟨0, 1, 0.5, .months⟩

theorem simulate_is_run_by_name_training :
    ∃ m r moments, Domain.aerodin.validate training = .ok m ∧
      m.simulate (.ofList [("training_time", 4)]) 10 = .ok r ∧
      ByName.run training (.ofList [("training_time", 4)]) ⟨0, 1, 0.5, .months⟩ 10 = some moments ∧
      r.Shows training (.ofList [("training_time", 4)]) ⟨0, 1, 0.5, .months⟩ moments := by
  have hsome : ((Domain.aerodin.validate training).toOption.bind fun m ↦
      (m.simulate (.ofList [("training_time", 4)]) 10).toOption).isSome := by decide +kernel
  obtain ⟨r, hr⟩ := Option.isSome_iff_exists.mp hsome
  obtain ⟨m, hm, hr⟩ := Option.bind_eq_some_iff.mp hr
  rw [Except.toOption_eq_some] at hm hr
  obtain ⟨moments, hmoments, -, hshows⟩ :=
    (simulate_is_run_by_name .aerodin training m hm _ 10).2 r hr
  exact ⟨m, r, moments, hm, hr, hmoments, hshows⟩

end SystemDynamics
