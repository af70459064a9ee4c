import SystemDynamics.Proofs.Equation.Finite
import SystemDynamics.Proofs.Simulation.Agreement
import SystemDynamics.Proofs.Simulation.Grid

namespace SystemDynamics

namespace ByName

variable {d : Document} {overrides : NameMap Float}

/-- Other values for the stocks, equal where they were finite. -/
def Keeps (d : Document) (y y' : Values) : Prop :=
  ∀ s ∈ d.stocks, (y s.id).isFinite → y' s.id = y s.id

theorem computed?_isFinite {given : String → Option Float} {depth : Nat} {name : String} {x : Float}
    (h : computed? d given depth name = some x) : x.isFinite := by
  cases depth with
  | zero => simp [computed?] at h
  | succ depth =>
    obtain ⟨equation, -, h⟩ := Option.bind_eq_some_iff.mp h
    exact Equation.evaluate_isFinite (Except.toOption_eq_some.mp h)

theorem computed?_of_finite {given given' : String → Option Float}
    (hnone : ∀ v, given v = none → given' v = none)
    (hsome : ∀ v x, given v = some x → x.isFinite → given' v = some x) {depth : Nat}
    {name : String} {x : Float} (h : computed? d given depth name = some x) :
    computed? d given' depth name = some x := by
  induction depth generalizing name x with
  | zero => simp [computed?] at h
  | succ depth ih =>
    obtain ⟨equation, hequation, h⟩ := Option.bind_eq_some_iff.mp h
    refine Option.bind_eq_some_iff.mpr ⟨equation, hequation, ?_⟩
    rw [Except.toOption_eq_some] at h ⊢
    refine Equation.evaluate_of_finite ?_ h
    intro v y hy hfinite
    rw [Option.orElse_eq_orElse] at hy ⊢
    cases hv : given v with
    | none =>
      rw [hv] at hy
      rw [hnone v hv]
      exact ih hy
    | some z =>
      rw [hv] at hy
      obtain rfl := Option.some.inj hy
      rw [hsome v z hv hfinite]
      rfl

theorem given?_eq_of_stock?_eq_none {name : String} (h : d.stock? name = none) (time : Float)
    (y y' : Values) : given? d overrides time y name = given? d overrides time y' name := by
  rw [given?, given?, h]
  rfl

theorem given?_keeps {y y' : Values} (hy : Keeps d y y') (time : Float) {name : String} {x : Float}
    (h : given? d overrides time y name = some x) (hfinite : x.isFinite) :
    given? d overrides time y' name = some x := by
  cases hs : d.stock? name with
  | none => rwa [given?_eq_of_stock?_eq_none hs time y' y]
  | some s =>
    rw [given?, hs] at h ⊢
    split at h
    case isTrue htime => rwa [if_pos htime]
    case isFalse htime =>
      rw [if_neg htime]
      obtain rfl : y s.id = x := by simpa using h
      simp [hy s (List.mem_of_find?_eq_some hs) hfinite]

theorem given?_eq_none_keeps {y y' : Values} (time : Float) {name : String}
    (h : given? d overrides time y name = none) : given? d overrides time y' name = none := by
  cases hs : d.stock? name with
  | none => rwa [given?_eq_of_stock?_eq_none hs time y' y]
  | some s =>
    rw [given?, hs] at h
    split at h <;> simp at h

theorem computedAt_keeps {y y' : Values} (hy : Keeps d y y') {time : Float} {c : Values}
    (h : computedAt d overrides time y = some c) : computedAt d overrides time y' = some c := by
  rw [computedAt, settle_eq_some] at h ⊢
  refine ⟨fun e he ↦ computed?_of_finite ?_ ?_ (h.1 e he), h.2⟩
  · intro v hv
    exact given?_eq_none_keeps time hv
  · intro v x hv hx
    exact given?_keeps hy time hv hx

theorem computedAt_isFinite {y : Values} {time : Float} {c : Values}
    (h : computedAt d overrides time y = some c) {e : String × String} (he : e ∈ d.equations) :
    (c e.1).isFinite :=
  computed?_isFinite ((settle_eq_some.mp h).1 e he)

theorem Keeps.add {y y' : Values} (hy : Keeps d y y') (change : Values) :
    Keeps d (fun s ↦ y s + change s) fun s ↦ y' s + change s := by
  intro s hs hfinite
  have hbefore : (y s.id).isFinite := by
    by_contra h
    rw [Bool.not_eq_true] at h
    simp [Number.isFinite_add_of_not h] at hfinite
  exact congrArg (· + change s.id) (hy s hs hbefore)

theorem step_keeps {slopes : Float → Values → Option Values}
    (hslopes : ∀ time y y' k, Keeps d y y' → slopes time y = some k → slopes time y' = some k)
    {time h : Float} {y y' z : Values} (hy : Keeps d y y') (hz : step slopes time h y = some z) :
    ∃ z', step slopes time h y' = some z' ∧ Keeps d z z' ∧
      ∀ s, (y s).isFinite = false → (z s).isFinite = false := by
  obtain ⟨k1, h1, hz⟩ := Option.bind_eq_some_iff.mp hz
  obtain ⟨k2, h2, hz⟩ := Option.bind_eq_some_iff.mp hz
  obtain ⟨k3, h3, hz⟩ := Option.bind_eq_some_iff.mp hz
  obtain ⟨k4, h4, hz⟩ := Option.bind_eq_some_iff.mp hz
  obtain rfl := Option.some.inj hz
  have h1' := hslopes _ _ _ _ hy h1
  have h2' := hslopes _ _ _ _ (hy.add fun s ↦ 0.5 * h * k1 s) h2
  have h3' := hslopes _ _ _ _ (hy.add fun s ↦ 0.5 * h * k2 s) h3
  have h4' := hslopes _ _ _ _ (hy.add fun s ↦ h * k3 s) h4
  refine ⟨fun s ↦ y' s + h / 6.0 * (k1 s + 2.0 * k2 s + 2.0 * k3 s + k4 s), ?_, hy.add _, ?_⟩
  · simp only [step, h1', h2', h3', h4', Option.bind_eq_bind, Option.bind_some, Option.pure_def]
  · intro s hs
    exact Number.isFinite_add_of_not hs

theorem advance_keeps {time h : Float} {y y' z : Values} (hy : Keeps d y y')
    (hz : advance d overrides time h y = some z) :
    ∃ z', advance d overrides time h y' = some z' ∧ Keeps d z z' ∧
      ∀ s, (y s).isFinite = false → (z s).isFinite = false := by
  refine step_keeps ?_ hy hz
  intro time y y' k hy hk
  obtain ⟨c, hc, rfl⟩ := Option.map_eq_some_iff.mp hk
  rw [computedAt_keeps hy hc]
  rfl

structure Moment.Keeps (d : Document) (o o' : Moment) : Prop where
  time : o'.time = o.time
  computed : o'.computed = o.computed
  stocks : ByName.Keeps d o.stocks o'.stocks

/-- A run does not notice what the stocks hold that are not finite. -/
theorem runFrom_keeps {grid : List Float} {y y' : Values} {moments : List Moment}
    (hy : Keeps d y y') (h : runFrom d overrides grid y = some moments) :
    ∃ moments', runFrom d overrides grid y' = some moments' ∧
      List.Forall₂ (Moment.Keeps d) moments moments' := by
  induction grid generalizing y y' moments with
  | nil =>
    obtain rfl := Option.some.inj h
    exact ⟨[], rfl, .nil⟩
  | cons t grid ih =>
    obtain ⟨c, later, hc, rfl, hlater⟩ := runFrom_cons_eq_some.mp h
    have hc' := computedAt_keeps hy hc
    cases grid with
    | nil =>
      obtain rfl := hlater
      exact ⟨[⟨t, y', c⟩], runFrom_cons_eq_some.mpr ⟨c, [], hc', rfl, rfl⟩,
        .cons ⟨rfl, rfl, hy⟩ .nil⟩
    | cons next grid =>
      obtain ⟨z, hz, hlater⟩ := hlater
      obtain ⟨z', hz', hkeeps, -⟩ := advance_keeps hy hz
      obtain ⟨later', hlater', hall⟩ := ih hkeeps hlater
      exact ⟨⟨t, y', c⟩ :: later',
        runFrom_cons_eq_some.mpr ⟨c, later', hc', rfl, z', hz', hlater'⟩, .cons ⟨rfl, rfl, hy⟩ hall⟩

theorem runFrom_pairwise {grid : List Float} {y : Values} {moments : List Moment}
    (h : runFrom d overrides grid y = some moments) (s : String) :
    ((y s).isFinite = false → ∀ o ∈ moments, (o.stocks s).isFinite = false) ∧
      moments.Pairwise fun o later ↦ (later.stocks s).isFinite → (o.stocks s).isFinite := by
  induction grid generalizing y moments with
  | nil =>
    obtain rfl := Option.some.inj h
    simp
  | cons t grid ih =>
    obtain ⟨c, later, hc, rfl, hlater⟩ := runFrom_cons_eq_some.mp h
    cases grid with
    | nil =>
      obtain rfl := hlater
      simp
    | cons next grid =>
      obtain ⟨z, hz, hlater⟩ := hlater
      obtain ⟨-, -, -, hlost⟩ := advance_keeps (fun _ _ _ ↦ rfl) hz
      obtain ⟨hall, hpairwise⟩ := ih hlater
      refine ⟨fun hy ↦ List.forall_mem_cons.mpr ⟨hy, hall (hlost s hy)⟩,
        List.pairwise_cons.mpr ⟨?_, hpairwise⟩⟩
      intro o ho hfinite
      by_contra hy
      simp [hall (hlost s (by simpa using hy)) o ho] at hfinite

end ByName

def Trajectory.numbers (r : Trajectory) : List Float :=
  r.time ++ (r.stocks.values ++ r.flows.values ++ r.auxiliaries.values).flatten ++
    r.settings.parameters.values

theorem forall_of_getLast? {P : Float → Prop} {xs : List Float}
    (hpairwise : xs.Pairwise fun x later ↦ P later → P x) (hlast : ∀ x ∈ xs.getLast?, P x) :
    ∀ x ∈ xs, P x := by
  rcases xs.eq_nil_or_concat with rfl | ⟨before, last, rfl⟩
  · simp
  · rw [List.concat_eq_append] at hpairwise hlast ⊢
    have hP : P last := hlast last (by simp)
    intro x hx
    rcases List.mem_append.mp hx with hx | hx
    · exact (List.pairwise_append.mp hpairwise).2.2 x hx last (by simp) hP
    · rwa [List.mem_singleton.mp hx]

variable {d : Document} {overrides : NameMap Float} {horizon : Horizon} {r : Trajectory}
  {moments : List ByName.Moment}

theorem ByName.computedAt_read (hw : d.WellDeclared) {y c : ByName.Values} {time : Float}
    (h : ByName.computedAt d overrides time y = some c) {e : String × String}
    (he : e ∈ d.equations) {t : Equation.Term String} (ht : Equation.parse e.2 = .ok t)
    {s : Stock} (hs : s ∈ d.stocks) (hread : s.id ∈ t.certain) : (y s.id).isFinite := by
  have hvalue := (ByName.settle_eq_some.mp h).1 e he
  obtain ⟨depth, hdepth⟩ := Nat.exists_eq_add_one.mpr (List.length_pos_of_mem he)
  rw [hdepth, ByName.computed?, NameMap.lookup_eq_some hw.equations_nodup he] at hvalue
  obtain ⟨z, hz, hfinite⟩ := Equation.evaluate_certain (Except.toOption_eq_some.mp hvalue) ht hread
  rw [Document.given?_stock overrides time y hw hs] at hz
  obtain rfl := Option.some.inj hz
  exact hfinite

theorem ByName.run_isFinite (hw : d.WellDeclared) {start stop step : ℚ}
    (hbounded : horizon.Bounded start stop step) {limit : Nat}
    (hrun : ByName.run d overrides horizon limit = some moments)
    (hshows : r.Shows d overrides horizon moments) :
    ∀ x ∈ r.time ++ (r.flows.values ++ r.auxiliaries.values).flatten ++
      r.settings.parameters.values, x.isFinite := by
  obtain ⟨hall, grid, hgrid, hrun⟩ := ByName.run_eq_some.mp hrun
  have hcomputed := ByName.runFrom_computed hrun
  intro x hx
  rw [List.mem_append, List.mem_append, List.mem_flatten] at hx
  rcases hx with (hx | ⟨xs, hxs, hx⟩) | hx
  · rw [hshows.time, ByName.runFrom_time hrun] at hx
    exact Grid.points_isFinite hbounded hgrid hx
  · rcases List.mem_append.mp hxs with hxs | hxs
    · obtain ⟨f, hf, rfl⟩ := (hshows.mem_flows hw).mp hxs
      obtain ⟨o, ho, rfl⟩ := List.mem_map.mp hx
      refine ByName.computedAt_isFinite (hcomputed o ho) (e := (f.id, f.equation)) ?_
      exact List.mem_append_left _ (List.mem_map.mpr ⟨f, hf, rfl⟩)
    · obtain ⟨a, ha, rfl⟩ := (hshows.mem_auxiliaries hw).mp hxs
      obtain ⟨o, ho, rfl⟩ := List.mem_map.mp hx
      refine ByName.computedAt_isFinite (hcomputed o ho) (e := (a.id, a.equation)) ?_
      exact List.mem_append_right _ (List.mem_map.mpr ⟨a, ha, rfl⟩)
  · obtain ⟨p, hp, rfl⟩ := (hshows.mem_parameters hw).mp hx
    exact hw.settled_isFinite hall hp

/-- Only stocks may grow beyond the doubles, and a run in which one does so has a result only where
nothing reads it from then on. In every result the time, the flows, the auxiliaries and the
parameters are finite; a stock that is not finite at a point is not so later; and whatever else
such stocks had held at a point, the run would have gone on with the same values of everything
else. -/
theorem overflow_only_in_unread_stocks (domain : Domain) (d : Document) (m : Model)
    (h : domain.validate d = .ok m) (overrides : NameMap Float) (limit : Nat) (r : Trajectory)
    (hr : m.simulate overrides limit = .ok r) :
    (∀ x ∈ r.time ++ (r.flows.values ++ r.auxiliaries.values).flatten ++
      r.settings.parameters.values, x.isFinite) ∧
    (∀ xs ∈ r.stocks.values, xs.Pairwise fun x later ↦ later.isFinite → x.isFinite) ∧
    ((∀ x ∈ r.numbers, x.isFinite) ↔
      ∀ xs ∈ r.stocks.values, ∀ x ∈ xs.getLast?, x.isFinite) ∧
    (∀ s ∈ d.stocks, ∀ e ∈ d.equations, ∀ t, Equation.parse e.2 = .ok t → s.id ∈ t.certain →
      ∀ xs, r.stocks.find? s.id = some xs → ∀ x ∈ xs, x.isFinite) ∧
    ∃ moments, ByName.run d overrides m.horizon limit = some moments ∧
      r.Shows d overrides m.horizon moments ∧
      ∀ i o, moments[i]? = some o → ∀ y, ByName.Keeps d o.stocks y →
        ∃ later, ByName.runFrom d overrides (r.time.drop i) y = some later ∧
          List.Forall₂ (ByName.Moment.Keeps d) (moments.drop i) later := by
  obtain ⟨hm, hname, -⟩ := Model.runs_of_validate h
  obtain ⟨start, stop, step, hbounded⟩ := Domain.validate_horizon h
  obtain ⟨moments, hrun, -, hshows⟩ := hm.exists_moments hname hr
  have hw := hm.wellDeclared
  obtain ⟨-, grid, hgrid, hrunFrom⟩ := ByName.run_eq_some.mp hrun
  have hothers := ByName.run_isFinite hw hbounded hrun hshows
  have hstocks : ∀ xs ∈ r.stocks.values,
      xs.Pairwise fun x later ↦ later.isFinite → x.isFinite := by
    intro xs hxs
    obtain ⟨s, hs, rfl⟩ := (hshows.mem_stocks hw).mp hxs
    exact List.pairwise_map.mpr (ByName.runFrom_pairwise hrunFrom s.id).2
  refine ⟨hothers, hstocks, ⟨?_, ?_⟩, ?_, moments, hrun, hshows, ?_⟩
  · intro hall xs hxs x hx
    refine hall x ?_
    simp only [Trajectory.numbers, List.mem_append, List.mem_flatten]
    exact .inl (.inr ⟨xs, .inl (.inl hxs), List.mem_of_getLast? hx⟩)
  · intro hlast x hx
    simp only [Trajectory.numbers, List.mem_append, List.mem_flatten] at hx hothers
    rcases hx with (hx | ⟨xs, (hxs | hxs) | hxs, hx⟩) | hx
    · exact hothers x (.inl (.inl hx))
    · exact forall_of_getLast? (hstocks xs hxs) (hlast xs hxs) x hx
    · exact hothers x (.inl (.inr ⟨xs, .inl hxs, hx⟩))
    · exact hothers x (.inl (.inr ⟨xs, .inr hxs, hx⟩))
    · exact hothers x (.inr hx)
  · intro s hs e he t ht hread xs hxs x hx
    rw [hshows.stocks s hs, Option.some_inj] at hxs
    rw [← hxs] at hx
    obtain ⟨o, ho, rfl⟩ := List.mem_map.mp hx
    exact ByName.computedAt_read hw (ByName.runFrom_computed hrunFrom o ho) he ht hs hread
  · intro i o ho y hy
    rw [hshows.time, ByName.runFrom_time hrunFrom]
    exact ByName.runFrom_keeps hy (ByName.runFrom_drop hrunFrom ho)

/-- Revenue fills the cash reserves beyond the last double, and nothing reads them. -/
def windfall : Document where
  name := "Revenue"
  description := "Revenue fills the cash reserves."
  stocks := [{ id := "cash_reserves", name := "Cash", initialValue := some 1.7e308 }]
  flows := [{ id := "revenue", name := "Revenue", target := some "cash_reserves",
              equation := "1.7e308" }]
  horizon := some ⟨0, 1, 1, .months⟩

theorem exists_simulate_windfall :
    ∃ m r, Domain.aerodin.validate windfall = .ok m ∧ m.simulate .empty 100 = .ok r ∧
      ∃ xs ∈ r.stocks.values, ∃ x ∈ xs.getLast?, x.isFinite = false := by
  have hsome : ((Domain.aerodin.validate windfall).toOption.bind fun m ↦
      (m.simulate .empty 100).toOption.bind fun r ↦
        (r.stocks.find? "cash_reserves").bind fun xs ↦
          xs.getLast?.filter (!·.isFinite)).isSome := by
    decide +kernel
  obtain ⟨x, hx⟩ := Option.isSome_iff_exists.mp hsome
  obtain ⟨m, hm, hx⟩ := Option.bind_eq_some_iff.mp hx
  obtain ⟨r, hr, hx⟩ := Option.bind_eq_some_iff.mp hx
  obtain ⟨xs, hxs, hx⟩ := Option.bind_eq_some_iff.mp hx
  rw [Except.toOption_eq_some] at hm hr
  rw [Option.filter_eq_some_iff, Bool.not_eq_true'] at hx
  exact ⟨m, r, hm, hr, xs, NameMap.mem_values_of_find? hxs, x, hx.1, hx.2⟩

theorem overflow_only_in_unread_stocks_windfall :
    ∃ m r, Domain.aerodin.validate windfall = .ok m ∧ m.simulate .empty 100 = .ok r ∧
      (∀ x ∈ r.time ++ (r.flows.values ++ r.auxiliaries.values).flatten ++
        r.settings.parameters.values, x.isFinite) ∧
      ¬ ∀ x ∈ r.numbers, x.isFinite := by
  obtain ⟨m, r, hm, hr, xs, hxs, x, hx, hnot⟩ := exists_simulate_windfall
  obtain ⟨hothers, -, hlast, -⟩ :=
    overflow_only_in_unread_stocks .aerodin windfall m hm .empty 100 r hr
  refine ⟨m, r, hm, hr, hothers, ?_⟩
  intro hall
  exact absurd (hlast.mp hall xs hxs x hx) (by simp [hnot])

/-- Not every number of every result is finite. -/
theorem windfall_result_overflows :
    ¬ ∀ (domain : Domain) (d : Document) (m : Model), domain.validate d = .ok m →
      ∀ (overrides : NameMap Float) (limit : Nat) (r : Trajectory),
        m.simulate overrides limit = .ok r → ∀ x ∈ r.numbers, x.isFinite := by
  intro hall
  obtain ⟨m, r, hm, hr, xs, hxs, x, hx, hnot⟩ := exists_simulate_windfall
  have hmem : x ∈ r.numbers := by
    simp only [Trajectory.numbers, List.mem_append, List.mem_flatten]
    exact .inl (.inr ⟨xs, .inl (.inl hxs), List.mem_of_getLast? hx⟩)
  exact absurd (hall .aerodin windfall m hm .empty 100 r hr x hmem) (by simp [hnot])

end SystemDynamics
