import SystemDynamics.Proofs.Simulation.Reading

namespace SystemDynamics

open ByName (Values given? computed? slope)
open Dependency (Graph)
open Equation (Fault Term)

namespace ByName

/-- The times and the states of the stages of a step, up to the first at which there are no
slopes. -/
inductive Stage (slopes : Float → Values → Option Values) (time h : Float) (y : Values) :
    Float → Values → Prop
  | first : Stage slopes time h y time y
  | second {k1 : Values} (h1 : slopes time y = some k1) :
      Stage slopes time h y (time + 0.5 * h) fun s ↦ y s + 0.5 * h * k1 s
  | third {k1 k2 : Values} (h1 : slopes time y = some k1)
      (h2 : (slopes (time + 0.5 * h) fun s ↦ y s + 0.5 * h * k1 s) = some k2) :
      Stage slopes time h y (time + 0.5 * h) fun s ↦ y s + 0.5 * h * k2 s
  | fourth {k1 k2 k3 : Values} (h1 : slopes time y = some k1)
      (h2 : (slopes (time + 0.5 * h) fun s ↦ y s + 0.5 * h * k1 s) = some k2)
      (h3 : (slopes (time + 0.5 * h) fun s ↦ y s + 0.5 * h * k2 s) = some k3) :
      Stage slopes time h y (time + h) fun s ↦ y s + h * k3 s

variable (d : Document) (overrides : NameMap Float)

/-- The times and the states at which a run over a grid evaluates, up to the first at which
something has no value: its points, and the stages of the steps between them. -/
inductive Evaluates : (grid : List Float) → Values → Float → Values → Prop
  | point {t : Float} {grid : List Float} {y : Values} : Evaluates (t :: grid) y t y
  | stage {t next time : Float} {grid : List Float} {y z : Values}
      (h : Stage (fun time y ↦ (computedAt d overrides time y).map (slope d)) t (next - t) y
        time z) : Evaluates (t :: next :: grid) y time z
  | later {t next time : Float} {grid : List Float} {y y' z : Values}
      (hstep : advance d overrides t (next - t) y = some y')
      (h : Evaluates (next :: grid) y' time z) : Evaluates (t :: next :: grid) y time z

/-- What the names in the equations stand for at a time and a state of the stocks. -/
def scope (time : Float) (y : Values) : Equation.Scope String := fun name ↦
  given? d overrides time y name <|>
    computed? d (given? d overrides time y) d.equations.length name

/-- An equation of a document that has no value at a time and a state, though all its names have. -/
structure Fails (time : Float) (y : Values) (owner equation : String) (fault : Fault) : Prop where
  declared : (owner, equation) ∈ d.equations
  known : ∃ t, Equation.parse equation = .ok t ∧
    ∀ name ∈ t.names, ∃ x, scope d overrides time y name = some x
  evaluate : Equation.evaluate (scope d overrides time y) equation = .error fault

end ByName

variable {d : Document}

section

variable {given : String → Option Float} {order : List Computed} {p : Program}
  {before : List Instruction} {f : Frame}
  (hw : d.WellDeclared) (hgiven : ∀ e ∈ d.equations, given e.1 = none)
  (ho : (Graph.ofDocument d).evaluationOrder = .ok order) (hp : d.compile order = .ok p)

include hw hgiven ho hp

theorem exists_failing {is : List Instruction} {failed : Instruction × Fault}
    (hf : f.After d given before) (hi : p.instructions = before ++ is)
    (hfails : is.foldlM Program.execute f = .error failed) :
    ∃ before' after f', p.instructions = before' ++ failed.1 :: after ∧
      Frame.After d given before' f' ∧
      failed.1.term.eval spellSlot (f'[·]?) = .error failed.2 := by
  induction is generalizing before f with
  | nil => exact absurd hfails (by simp [pure, Except.pure])
  | cons i is ih =>
    rw [List.foldlM_cons] at hfails
    cases heval : i.term.eval spellSlot (f[·]?) with
    | error fault =>
      rw [Program.execute, heval] at hfails
      obtain rfl := Except.error.inj hfails
      exact ⟨before, is, f, hi, hf, heval⟩
    | ok x =>
      have hexecute : Program.execute f i = .ok (f.setIfInBounds i.slot x) := by
        rw [Program.execute, heval]
      rw [hexecute] at hfails
      rcases execute_after hw hgiven ho hp hf hi with ⟨f', hok, hf'⟩ | ⟨⟨e, herror⟩, -⟩
      · rw [hexecute] at hok
        obtain rfl := Except.ok.inj hok
        exact ih hf' (by rw [hi]; simp) hfails
      · rw [hexecute] at herror
        exact absurd herror (by simp)

end

/-- An error that reports how an equation fails by name, at the time and the state that it fails
at. -/
def RunError.Reports (d : Document) (overrides : NameMap Float) (time : Float) (y : Values)
    (e : RunError) : Prop :=
  ∃ owner equation fault, ByName.Fails d overrides time y owner equation fault ∧
    e = .evaluation owner equation time (fault.respell (Layout.ofDocument d).spell)

section

open RungeKutta

variable {slopes : Float → Values → Option Values} {t h : Float} {y : Values}

theorem RungeKutta.SlopesBefore.stage {b : Buffer} {ks : Buffer → Values}
    (hks : SlopesBefore slopes t h y b.rank ks) :
    ByName.Stage slopes t h y (b.time t h) (stateAt h y ks b) := by
  cases b with
  | k1 => exact .first
  | k2 => exact .second (hks.first (by decide))
  | k3 => exact .third (hks.first (by decide)) (hks.second (by decide))
  | k4 => exact .fourth (hks.first (by decide)) (hks.second (by decide)) (hks.third (by decide))

/-- A step that fails does so at one of its stages. -/
theorem RungeKutta.stepWith_error_at {σ ε : Type} {inv : σ → Prop} {ids : List String}
    {rate : MachineRate σ Float ε} (hr : RateAgrees inv ids rate slopes) {w : σ} (hw : inv w)
    {s : RungeKutta Float} (hs : s.Fits ids.length) {e : ε}
    (hstep : (s.stepWith rate w t h (ids.map y)).2.2 = .error e) :
    ∃ time z, ByName.Stage slopes t h y time z ∧ ∃ w' buffer w'' k, inv w' ∧
      rate w' time (ids.map z) buffer = (w'', k, some e) := by
  rcases stepWith_by_name hr hw hs t h y with
    ⟨_, _, _, _, hok, -⟩ | ⟨b, ks, w₁, buffer, w', _, k, e', hks, -, herror, hw₁, hrate⟩
  · rw [hok] at hstep
    exact absurd hstep (by simp)
  · rw [herror] at hstep
    obtain rfl := Except.error.inj hstep
    exact ⟨_, _, hks.stage, w₁, buffer, w', k, hw₁, hrate⟩

end

namespace Model.Runs

theorem exists_slot {m : Model} (hm : m.Runs d) {e : String × String} (he : e ∈ d.equations)
    {t : Term String} (ht : Equation.parse e.2 = .ok t) {name : String} (hname : name ∈ t.names) :
    ∃ slot, (Layout.ofDocument d).slot? name = some slot := by
  obtain ⟨c, -, hc⟩ := Document.mem_equations_iff.mp he
  obtain ⟨i, -, hi, -⟩ := hm.exists_instruction hc
  obtain ⟨e', t', i', he', ht', hrename, -⟩ := Document.compileOne_eq_ok.mp hi
  obtain rfl := Option.some.inj (hc.symm.trans he')
  obtain rfl := Except.ok.inj (ht.symm.trans ht')
  obtain ⟨slot, hslot⟩ := Term.exists_rename_eq_ok_iff.mp ⟨i', hrename⟩ name hname
  exact ⟨slot, Document.resolve_eq_ok.mp hslot⟩

variable {m : Model} {overrides : NameMap Float} (hm : m.Runs d)
  (hdocument : m.document.equation? = d.equation?)

include hm hdocument

theorem evaluate_reports {f : Frame} (hf : f.Ready d overrides) {time : Float} {y : Values}
    {e : RunError} (he : m.evaluate f time ((d.idsOf .stock).map y) = .error e) :
    e.Reports d overrides time y := by
  obtain ⟨order, ho, hp⟩ := hm.compiled
  have hw := hm.wellDeclared
  have hgiven : ∀ e ∈ d.equations, given? d overrides time y e.1 = none :=
    given?_eq_none hw time y
  cases hrun : m.program.run (Program.load f time ((d.idsOf .stock).map y)) with
  | ok g =>
    rw [Model.evaluate, hrun] at he
    exact absurd he (by simp [Except.mapError])
  | error failed =>
    rw [Model.evaluate, hrun] at he
    obtain rfl := Except.error.inj he
    have hstart : Frame.After d (given? d overrides time y) []
        (Program.load f time ((d.idsOf .stock).map y)) := ⟨hf.load hw, by simp⟩
    obtain ⟨before, after, f', hi, hf', hfault⟩ :=
      exists_failing hw hgiven ho hp hstart (List.nil_append _).symm hrun
    have hlength : before.length ≤ d.equations.length := by
      rw [← instructions_length ho hp, hi, List.length_append]
      exact Nat.le_add_right _ _
    obtain ⟨e, t, he, ht, hknown, heval⟩ := hf'.eval_respell hgiven ho hp hi hlength
    rw [hfault] at heval
    obtain ⟨fault, hnamed, hspelled⟩ := Except.mapError_eq_error.mp heval.symm
    have hmem := Document.mem_equations_of_equation he
    refine ⟨e.1, e.2, fault, ⟨hmem, ⟨t, ht, hknown⟩, ?_⟩, ?_⟩
    · rw [Equation.evaluate, ht]
      exact hnamed
    · change m.failure time failed.1 failed.2 = _
      rw [Model.failure, hdocument, he, hspelled]
      rfl

theorem rate_reports {f f' : Frame} (hf : f.Ready d overrides) {time : Float} {y : Values}
    {buffer k : List Float} {e : RunError}
    (he : m.rate f time ((d.idsOf .stock).map y) buffer = (f', k, some e)) :
    e.Reports d overrides time y := by
  rw [Model.rate] at he
  split at he
  case h_1 => exact absurd he (by simp)
  case h_2 hevaluate =>
    simp only [Prod.mk.injEq, Option.some.injEq] at he
    exact he.2.2 ▸ hm.evaluate_reports hdocument hf hevaluate

/-- A run over a grid that fails does so at one of the evaluations that it makes by name. -/
theorem recordFrom_reports (grid : List Float) (point : Nat) (y : Values) {f : Frame}
    (hf : f.Ready d overrides) {s : RungeKutta Float} (hs : s.Fits d.stocks.length) {l : Ledger}
    {e : RunError} (he : m.recordFrom grid point ((d.idsOf .stock).map y) f s l = .error e) :
    ∃ time z, ByName.Evaluates d overrides grid y time z ∧ e.Reports d overrides time z := by
  have hlength : (d.idsOf .stock).length = d.stocks.length := List.length_map _
  induction grid generalizing point y f s l with
  | nil => exact absurd he (by simp [Model.recordFrom])
  | cons t grid ih =>
    cases grid with
    | nil =>
      rw [Model.recordFrom, Except.bind_eq_error] at he
      rcases he with hfails | ⟨f', -, hrecord⟩
      · exact ⟨t, y, .point, hm.evaluate_reports hdocument hf hfails⟩
      · exact absurd hrecord (by simp [pure, Except.pure])
    | cons next grid =>
      -- It fails at the point itself, at a stage of the step from there, or later.
      rw [Model.recordFrom, Except.bind_eq_error] at he
      rcases he with hfails | ⟨f', hevaluate, hrest⟩
      · exact ⟨t, y, .point, hm.evaluate_reports hdocument hf hfails⟩
      · obtain ⟨c, -, hready, -⟩ := (hm.evaluate_agrees hf t y).of_ok hevaluate
        have hstep := RungeKutta.stepWith_agrees hm.rate_agrees hready
          (by rwa [hlength]) t (next - t) y
        rw [← ByName.advance] at hstep
        dsimp only at hrest
        rw [Except.bind_eq_error] at hrest
        rcases hrest with hfails | ⟨stocks, hstocks, hlater⟩
        · obtain ⟨time, z, hstage, f₁, buffer, f₂, k, hf₁, hrate⟩ :=
            RungeKutta.stepWith_error_at hm.rate_agrees hready (by rwa [hlength]) hfails
          exact ⟨time, z, .stage hstage, hm.rate_reports hdocument hf₁ hrate⟩
        · cases hy : ByName.advance d overrides t (next - t) y with
          | none =>
            rw [hy] at hstep
            obtain ⟨w, s', e', he'⟩ := hstep
            simp [he'] at hstocks
          | some y' =>
            rw [hy] at hstep
            obtain ⟨f'', s', he', hf'', hs'⟩ := hstep
            rw [he'] at hstocks hlater
            obtain rfl := Except.ok.inj hstocks
            obtain ⟨time, z, hz, hreports⟩ := ih (point + 1) y' hf'' (hlength ▸ hs') hlater
            exact ⟨time, z, .later hy hz, hreports⟩

theorem simulate_reports {limit : Nat} {owner equation : String} {time : Float} {fault : Fault}
    (he : m.simulate overrides limit = .error (.evaluation owner equation time fault)) :
    ∃ grid y named,
      Grid.build m.horizon.start m.horizon.stop m.horizon.step limit = .ok grid ∧
        ByName.Evaluates d overrides grid (ByName.initial d) time y ∧
        ByName.Fails d overrides time y owner equation named ∧
        fault = named.respell (Layout.ofDocument d).spell := by
  rw [Model.simulate, Except.bind_eq_error] at he
  rcases he with hresolve | ⟨parameters, hresolve, he⟩
  · rw [Model.resolve] at hresolve
    split at hresolve <;> simp at hresolve
  obtain ⟨-, -, hparameters⟩ := hm.resolve_agrees.of_ok hresolve
  rw [Except.bind_eq_error] at he
  rcases he with hgrid | ⟨grid, hgrid, he⟩
  · obtain ⟨points, -, hpoints⟩ := Except.mapError_eq_error.mp hgrid
    exact absurd hpoints (by simp)
  rw [Except.mapError_eq_ok] at hgrid
  dsimp only at he
  rw [Except.bind_eq_error] at he
  rcases he with hrecord | ⟨l, -, hlast⟩
  · have hlength : ((d.idsOf .stock).map (ByName.initial d)).length = d.stocks.length := by
      rw [List.length_map, Document.idsOf, List.length_map]
    rw [hparameters, hm.initialStocks_eq] at hrecord
    obtain ⟨time', y, hy, owner', equation', named, hfails, herror⟩ :=
      hm.recordFrom_reports hdocument grid 0 (ByName.initial d) (hm.frame_ready 0 _ hlength)
        (hlength ▸ RungeKutta.fits_ofDimension _) hrecord
    simp only [RunError.evaluation.injEq] at herror
    obtain ⟨rfl, rfl, rfl, rfl⟩ := herror
    exact ⟨grid, y, named, hgrid, hy, hfails, rfl⟩
  · exact absurd hlast (by simp [pure, Except.pure])

end Model.Runs

theorem Equation.Fault.ne_held {fault : Fault} (h : ∀ f, fault.respell f = fault) (name : String)
    (x : Float) : fault ≠ .undefined (.held name x) := by
  intro hheld
  subst hheld
  have hname := h fun name ↦ name ++ "#"
  simp only [Fault.respell, Fault.undefined.injEq, Undefined.held.injEq, and_true] at hname
  exact absurd (congrArg String.length hname) (by simp)

/-- A run that fails in an evaluation reports an equation as it is declared, at the time of the
first evaluation by name that fails, where all that the equation names has a value. The fault is
that of the equation by name, except for a variable that holds no finite number: it is named by its
slot. -/
theorem evaluation_error_by_name (domain : Domain) (d : Document) (m : Model)
    (h : domain.validate d = .ok m) (overrides : NameMap Float) (limit : Nat)
    (owner equation : String) (time : Float) (fault : Fault)
    (he : m.simulate overrides limit = .error (.evaluation owner equation time fault)) :
    ∃ grid y named,
      Grid.build m.horizon.start m.horizon.stop m.horizon.step limit = .ok grid ∧
      ByName.Evaluates d overrides grid (ByName.initial d) time y ∧
      ByName.Fails d overrides time y owner equation named ∧
      ((fault = named ∧ ∀ name x, named ≠ .undefined (.held name x)) ∨
        ∃ name slot x, named = .undefined (.held name x) ∧
          fault = .undefined (.held (spellSlot slot) x) ∧
          m.program.layout.slot? name = some slot ∧
          ByName.scope d overrides time y name = some x ∧ x.isFinite = false) := by
  obtain ⟨hm, -, -⟩ := Model.runs_of_validate h
  have hdocument : m.document.equation? = d.equation? := by
    rw [Domain.document_of_validate h]
    rfl
  obtain ⟨grid, y, named, hgrid, hy, hfails, rfl⟩ := hm.simulate_reports hdocument he
  refine ⟨grid, y, named, hgrid, hy, hfails, ?_⟩
  obtain ⟨t, ht, hknown⟩ := hfails.known
  have heval := hfails.evaluate
  rw [Equation.evaluate, ht] at heval
  rcases Term.eval_fault heval with hnameless | ⟨name, hname, hvariable⟩
  · exact .inl ⟨hnameless _, Fault.ne_held hnameless⟩
  · obtain ⟨x, hx⟩ := hknown name hname
    rcases hvariable with ⟨hnone, -⟩ | ⟨x, hx, hfinite, rfl⟩
    · rw [hnone] at hx
      exact absurd hx (by simp)
    · obtain ⟨slot, hslot⟩ := hm.exists_slot hfails.declared ht hname
      have hspell : (Layout.ofDocument d).spell name = spellSlot slot := by
        rw [Layout.spell, hslot]
        rfl
      refine .inr ⟨name, slot, x, rfl, ?_, hm.program_eq.1 ▸ hslot, hx, hfinite⟩
      rw [Fault.respell, id, hspell]

theorem evaluation_error_by_name_training :
    ∃ m y, Domain.aerodin.validate training = .ok m ∧
      m.simulate (.ofList [("training_time", 0)]) 10 =
        .error (.evaluation "promotion_rate" "workforce_gap / training_time" 0
          (.undefined (.quotient 12))) ∧
      ByName.Fails training (.ofList [("training_time", 0)]) 0 y "promotion_rate"
        "workforce_gap / training_time" (.undefined (.quotient 12)) := by
  have herror : ((Domain.aerodin.validate training).toOption.bind fun m ↦
      (m.simulate (.ofList [("training_time", 0)]) 10).error?) =
        some (.evaluation "promotion_rate" "workforce_gap / training_time" 0
          (.undefined (.quotient 12))) := by decide +kernel
  obtain ⟨m, hm, he⟩ := Option.bind_eq_some_iff.mp herror
  rw [Except.toOption_eq_some] at hm
  rw [Except.error?_eq_some] at he
  obtain ⟨grid, y, named, -, -, hfails, hnamed | hheld⟩ :=
    evaluation_error_by_name .aerodin training m hm _ _ _ _ _ _ he
  · exact ⟨m, y, hm, he, hnamed.1 ▸ hfails⟩
  · obtain ⟨name, slot, x, -, hfault, -⟩ := hheld
    exact absurd hfault (by simp)

/-- Interest that is earned on the cash reserves and takes them beyond the last double. -/
def compounding : Document where
  name := "Interest"
  description := "Interest fills the cash reserves that it is earned on."
  stocks := [{ id := "cash_reserves", name := "Cash", initialValue := some 1.7e308 }]
  flows := [{ id := "revenue", name := "Revenue", target := some "cash_reserves",
              equation := "cash_reserves" }]
  horizon := some ⟨0, 1, 1, .months⟩

/-- Not every error of a run is one that the equation has by name: the stock that overflows is named
by its slot. -/
theorem compounding_error_names_slot :
    ¬ ∀ (domain : Domain) (d : Document) (m : Model), domain.validate d = .ok m →
      ∀ (overrides : NameMap Float) (limit : Nat) (owner equation : String) (time : Float)
        (fault : Fault),
        m.simulate overrides limit = .error (.evaluation owner equation time fault) →
          ∃ scope, Equation.evaluate scope equation = .error fault := by
  intro hall
  have herror : ((Domain.aerodin.validate compounding).toOption.bind fun m ↦
      (m.simulate .empty 100).error?) =
        some (.evaluation "revenue" "cash_reserves" 0.5
          (.undefined (.held "#1" (1.0 / 0.0)))) := by decide +kernel
  obtain ⟨m, hm, he⟩ := Option.bind_eq_some_iff.mp herror
  rw [Except.toOption_eq_some] at hm
  rw [Except.error?_eq_some] at he
  obtain ⟨scope, hscope⟩ := hall .aerodin compounding m hm _ _ _ _ _ _ he
  have hnames : (Equation.parse "cash_reserves").toOption.map Term.names =
      some ["cash_reserves"] := by decide +kernel
  obtain ⟨t, ht, htnames⟩ := Option.map_eq_some_iff.mp hnames
  rw [Except.toOption_eq_some] at ht
  rw [Equation.evaluate, ht] at hscope
  rcases Term.eval_fault hscope with hnameless | ⟨name, hname, hvariable⟩
  · exact Fault.ne_held hnameless _ _ rfl
  · rw [htnames, List.mem_singleton] at hname
    subst hname
    rcases hvariable with ⟨-, hfault⟩ | ⟨x, -, -, hfault⟩ <;> simp at hfault

end SystemDynamics
