import SystemDynamics.Proofs.Dependency.Reads
import SystemDynamics.Proofs.Report.Walk
import SystemDynamics.Proofs.Simulation.Agreement
import SystemDynamics.Proofs.Validation.Completion

namespace SystemDynamics

open Dependency (Graph Leads)
open Number (Spelling fixed)
open Relation (ReflTransGen)

namespace Document

variable (d : Document)

/-- What a variable is computed from: a stock from the flows that fill or drain it, an auxiliary or
a flow from what its equation reads. -/
inductive HangsOn : String → String → Prop
  | moved {s : Stock} {f : Flow} (hs : s ∈ d.stocks) (hf : f ∈ d.flows)
    (h : f.target = some s.id ∨ f.source = some s.id) : HangsOn s.id f.id
  | read {reader read : String} (h : d.Reads reader read) : HangsOn reader read

variable {d}

theorem mem_flowsWith {side : Flow → Option String} {stock id : String} :
    id ∈ d.flowsWith side stock ↔ ∃ f ∈ d.flows, side f = some stock ∧ f.id = id := by
  simp [flowsWith, and_assoc]

theorem id_mem_idsOf {v : Variable} (hv : v ∈ d.nodes) : v.id ∈ d.idsOf v.kind := by
  obtain ⟨n, hn⟩ := List.getElem?_of_mem hv
  exact List.mem_of_getElem? (nodes_getElem?_eq_some hn).1

theorem Reads.mem_idsOf {reader read : String} (h : d.Reads reader read) :
    reader ∈ d.idsOf .flow ∨ reader ∈ d.idsOf .auxiliary := by
  obtain ⟨equation, -, he, -⟩ := h
  rw [equations, List.mem_append] at he
  rcases he with he | he
  · obtain ⟨f, hf, heq⟩ := List.mem_map.mp he
    exact .inl (List.mem_map.mpr ⟨f, hf, (Prod.mk.inj heq).1⟩)
  · obtain ⟨a, ha, heq⟩ := List.mem_map.mp he
    exact .inr (List.mem_map.mpr ⟨a, ha, (Prod.mk.inj heq).1⟩)

theorem find?_mem_nodes {id : String} {v : Variable}
    (h : (Graph.ofDocument d).find? id = some v) : v ∈ d.nodes ∧ v.id = id :=
  ⟨List.mem_of_find?_eq_some h, by simpa using List.find?_some h⟩

theorem exists_find? {id : String} (h : id ∈ d.ids) :
    ∃ v, (Graph.ofDocument d).find? id = some v := by
  obtain ⟨n, v, hv, rfl⟩ := exists_node_of_mem_ids h
  rw [← Option.isSome_iff_exists, Graph.find?, List.find?_isSome]
  exact ⟨v, List.mem_of_getElem? hv, by simp⟩

theorem exists_mem_moved {stock id : String} :
    (∃ u ∈ (d.fillers stock ++ d.drains stock).filterMap (Graph.ofDocument d).find?, u.id = id) ↔
      ∃ f ∈ d.flows, (f.target = some stock ∨ f.source = some stock) ∧ f.id = id := by
  have hflow : ∀ name, name ∈ d.fillers stock ++ d.drains stock ↔
      ∃ f ∈ d.flows, (f.target = some stock ∨ f.source = some stock) ∧ f.id = name := by
    intro name
    rw [List.mem_append, fillers, drains, mem_flowsWith, mem_flowsWith]
    simp only [or_and_right, and_or_left, exists_or]
  constructor
  · rintro ⟨u, hu, rfl⟩
    obtain ⟨name, hname, hfind⟩ := List.mem_filterMap.mp hu
    obtain ⟨-, rfl⟩ := find?_mem_nodes hfind
    exact (hflow u.id).mp hname
  · rintro ⟨f, hf, hends, rfl⟩
    have hmem : f.id ∈ d.idsOf .flow := List.mem_map_of_mem hf
    obtain ⟨u, hu⟩ := exists_find? (mem_ids_of_idsOf hmem)
    have hmoves := (hflow f.id).mpr ⟨f, hf, hends, rfl⟩
    exact ⟨u, List.mem_filterMap.mpr ⟨f.id, hmoves, hu⟩, (find?_mem_nodes hu).2⟩

theorem reads_of_hangsOn {id id' : String} (h : d.HangsOn id id') (hid : id ∉ d.idsOf .stock) :
    d.Reads id id' := by
  cases h with
  | moved hs => exact absurd (List.mem_map_of_mem hs) hid
  | read h => exact h

section

variable (hw : d.WellDeclared) (hparse : ∀ e ∈ d.equations, ∃ t, Equation.parse e.2 = .ok t)

include hw hparse

theorem mem_dependencies {v u : Variable} (hv : v ∈ d.nodes) :
    u ∈ (Graph.ofDocument d).dependencies v.id ↔ u ∈ d.nodes ∧ d.Reads v.id u.id := by
  obtain ⟨n, hn⟩ := List.getElem?_of_mem hv
  rw [Graph.dependencies, hw.rank?_eq hn, Option.elim_some, List.mem_filterMap]
  constructor
  · rintro ⟨m, hm, hu⟩
    exact ⟨List.mem_of_getElem? hu, (hw.leads_iff hparse hn hu).mp hm⟩
  · rintro ⟨hu, hreads⟩
    obtain ⟨m, hm⟩ := List.getElem?_of_mem hu
    exact ⟨m, (hw.leads_iff hparse hn hm).mpr hreads, hm⟩

theorem exists_mem_dependencies {v : Variable} (hv : v ∈ d.nodes) {id : String} :
    (∃ u ∈ (Graph.ofDocument d).dependencies v.id, u.id = id) ↔ d.Reads v.id id := by
  constructor
  · rintro ⟨u, hu, rfl⟩
    exact ((mem_dependencies hw hparse hv).mp hu).2
  · intro hreads
    have hids : id ∈ d.ids := by
      obtain ⟨-, -, -, -, -, hids⟩ := hreads
      exact hids
    obtain ⟨m, u, hu, rfl⟩ := exists_node_of_mem_ids hids
    exact ⟨u, (mem_dependencies hw hparse hv).mpr ⟨List.mem_of_getElem? hu, hreads⟩, rfl⟩

theorem leading : Trace.Leading d.nodes (d.leads (Graph.ofDocument d)) d.HangsOn where
  closed v hv u hu := by
    rw [leads] at hu
    split at hu
    · simp at hu
    · obtain ⟨id, -, hid⟩ := List.mem_filterMap.mp hu
      exact (find?_mem_nodes hid).1
    · exact ((mem_dependencies hw hparse hv).mp hu).1
    · exact ((mem_dependencies hw hparse hv).mp hu).1
  iff v hv id := by
    have hkind := id_mem_idsOf hv
    have hnot : ∀ kind, v.kind ≠ kind → v.id ∉ d.idsOf kind :=
      fun kind hne hmem ↦ hne (hw.kind_unique hkind hmem)
    have hreads : ∀ id, d.Reads v.id id → v.kind = .flow ∨ v.kind = .auxiliary := by
      intro id h
      by_contra hne
      rw [not_or] at hne
      exact h.mem_idsOf.elim (hnot .flow hne.1) (hnot .auxiliary hne.2)
    have hiff : v.kind ≠ .stock → (d.Reads v.id id ↔ d.HangsOn v.id id) :=
      fun hne ↦ ⟨.read, fun h ↦ reads_of_hangsOn h (hnot .stock hne)⟩
    cases hk : v.kind with
    | parameter =>
      rw [leads, hk, ← hiff (by simp [hk])]
      exact ⟨fun ⟨u, hu, _⟩ ↦ absurd hu (by simp), fun h ↦ absurd (hreads id h) (by simp [hk])⟩
    | stock =>
      rw [leads, hk, exists_mem_moved]
      rw [hk] at hkind
      obtain ⟨s, hs, hid⟩ := List.mem_map.mp hkind
      constructor
      · rintro ⟨f, hf, hends, rfl⟩
        rw [← hid] at hends ⊢
        exact .moved hs hf hends
      · intro h
        generalize v.id = reader at h hreads
        cases h with
        | @moved s f _ hf hends => exact ⟨f, hf, hends, rfl⟩
        | read h => exact absurd (hreads id h) (by simp [hk])
    | auxiliary =>
      rw [leads, hk, ← hiff (by simp [hk])]
      exact exists_mem_dependencies hw hparse hv
    | flow =>
      rw [leads, hk, ← hiff (by simp [hk])]
      exact exists_mem_dependencies hw hparse hv

end

end Document

/-- The value of a variable at a point: from the series of its kind, or the one that a parameter
was given. -/
def Trajectory.Holds (r : Trajectory) (point : Nat) (v : Variable) (x : Float) : Prop :=
  match v.kind with
  | .stock => ∃ xs, r.stocks.find? v.id = some xs ∧ xs[point]? = some x
  | .flow => ∃ xs, r.flows.find? v.id = some xs ∧ xs[point]? = some x
  | .auxiliary => ∃ xs, r.auxiliaries.find? v.id = some xs ∧ xs[point]? = some x
  | .parameter => r.settings.parameters.find? v.id = some x

theorem Trajectory.Shows.exists_value {d : Document} {overrides : NameMap Float} {horizon : Horizon}
    {moments : List ByName.Moment} {r : Trajectory} (h : r.Shows d overrides horizon moments)
    (hw : d.WellDeclared) {point : Nat} (hpoint : point < r.points) {v : Variable}
    (hv : v ∈ d.nodes) : ∃ x, r.Holds point v x ∧ r.valueAt? point v.id = some x := by
  have hkind := Document.id_mem_idsOf hv
  have hnot : ∀ kind, v.kind ≠ kind → v.id ∉ d.idsOf kind :=
    fun kind hne hmem ↦ hne (hw.kind_unique hkind hmem)
  have hstocks : v.kind ≠ .stock → r.stocks.find? v.id = none := fun hne ↦
    NameMap.find?_eq_none fun hmem ↦ hnot .stock hne (h.stock_names.subset hmem)
  have hflows : v.kind ≠ .flow → r.flows.find? v.id = none := fun hne ↦
    NameMap.find?_eq_none fun hmem ↦ hnot .flow hne (h.flow_names.subset hmem)
  have hauxiliaries : v.kind ≠ .auxiliary → r.auxiliaries.find? v.id = none := fun hne ↦
    NameMap.find?_eq_none fun hmem ↦ hnot .auxiliary hne (h.auxiliary_names.subset hmem)
  have hrecorded : ∀ (series : NameMap (List Float)) (value : ByName.Moment → Float),
      series.find? v.id = some (moments.map value) →
      r.series? v.id = series.find? v.id →
      ∃ x, (∃ xs, series.find? v.id = some xs ∧ xs[point]? = some x) ∧
        r.valueAt? point v.id = some x := by
    intro series value hvalue hseries
    rw [Trajectory.points, h.time, List.length_map] at hpoint
    have hx : (moments.map value)[point]? = some (value moments[point]) := by
      rw [List.getElem?_map, List.getElem?_eq_getElem hpoint, Option.map_some]
    refine ⟨_, ⟨_, hvalue, hx⟩, ?_⟩
    rw [Trajectory.valueAt?, hseries, hvalue, Option.bind_some, hx]
    rfl
  rw [Trajectory.series?] at hrecorded
  cases hk : v.kind with
  | stock =>
    obtain ⟨s, hs, hid⟩ := List.mem_map.mp (hk ▸ hkind)
    have hfind := h.stocks s hs
    rw [hid] at hfind
    simp only [Trajectory.Holds, hk]
    exact hrecorded _ _ hfind (by rw [hfind]; rfl)
  | flow =>
    obtain ⟨f, hf, hid⟩ := List.mem_map.mp (hk ▸ hkind)
    have hfind := h.flows f hf
    rw [hid] at hfind
    simp only [Trajectory.Holds, hk]
    exact hrecorded _ _ hfind (by rw [hstocks (by simp [hk]), hfind]; rfl)
  | auxiliary =>
    obtain ⟨a, ha, hid⟩ := List.mem_map.mp (hk ▸ hkind)
    have hfind := h.auxiliaries a ha
    rw [hid] at hfind
    simp only [Trajectory.Holds, hk]
    exact hrecorded _ _ hfind (by rw [hstocks (by simp [hk]), hflows (by simp [hk]), hfind]; rfl)
  | parameter =>
    obtain ⟨p, hp, hid⟩ := List.mem_map.mp (hk ▸ hkind)
    have hfind := h.parameters p hp
    rw [hid] at hfind
    simp only [Trajectory.Holds, hk]
    refine ⟨p.settled overrides, hfind, ?_⟩
    rw [Trajectory.valueAt?, Trajectory.series?, hstocks (by simp [hk]), hflows (by simp [hk]),
      hauxiliaries (by simp [hk]), hfind]
    rfl

namespace Trace

def strokes : List String :=
  ["|--", "`--", "|  ", "   "]

/-- What stands before a line, a stroke for each line that it hangs under. -/
def IsMark (depth : Nat) (mark : String) : Prop :=
  ∃ pieces : List String, pieces.length = depth ∧ (∀ piece ∈ pieces, piece ∈ strokes) ∧
    mark = String.join pieces

/-- A variable that is opened stands with its level and its value, and one that was met with the
level of the line where it was opened. -/
inductive Headline (d : Document) (r : Trajectory) (point : Nat) : Trace → String → Prop
  | opened {v : Variable} {level : Nat} {children : List Trace} {x : Float}
    (hx : r.Holds point v x) : Headline d r point (.opened v level children)
      ("[L" ++ toString level ++ "] " ++ v.id ++ ("[" ++ fixed 3 x ++ "]") ++ d.role v)
  | met {v : Variable} {level : Nat} : Headline d r point (.met v level)
      (v.id ++ " -> (Ref to L" ++ toString level ++ ")")

/-- A line of a trace. Line breaks are in it only where an equation has them. -/
def IsLine (d : Document) (r : Trajectory) (point : Nat) (p : Nat × Trace) (line : String) : Prop :=
  ∃ mark headline, IsMark p.1 mark ∧ Headline d r point p.2 headline ∧ line = mark ++ headline

theorem isMark_zero : IsMark 0 "" :=
  ⟨[], rfl, by simp, rfl⟩

theorem IsMark.append {depth : Nat} {mark piece : String} (h : IsMark depth mark)
    (hpiece : piece ∈ strokes) : IsMark (depth + 1) (mark ++ piece) := by
  obtain ⟨pieces, hlength, hpieces, rfl⟩ := h
  refine ⟨pieces ++ [piece], by simp [hlength], ?_, by simp⟩
  rw [List.forall_mem_append, List.forall_mem_singleton]
  exact ⟨hpieces, hpiece⟩

variable {d : Document} {r : Trajectory} {point : Nat}

theorem linesAll_cons (stem : String) (t : Trace) (ts : List Trace) :
    ∃ under mark, under ∈ strokes ∧ mark ∈ strokes ∧
      linesAll d r point stem (t :: ts) =
        t.lines d r point (stem ++ under) (stem ++ mark) ++ linesAll d r point stem ts := by
  cases ts with
  | nil =>
    refine ⟨"   ", "`--", by simp [strokes], by simp [strokes], ?_⟩
    rw [linesAll, linesAll, List.append_nil]
  | cons u ts =>
    refine ⟨"|  ", "|--", by simp [strokes], by simp [strokes], ?_⟩
    rw [linesAll]
    simp

theorem isLine_opened (hvalue : ∀ v ∈ d.nodes, ∃ x, r.Holds point v x ∧
      r.valueAt? point v.id = some x) {v : Variable} (hv : v ∈ d.nodes) {depth level : Nat}
    {children : List Trace} {mark : String} (hmark : IsMark depth mark) :
    IsLine d r point (depth, .opened v level children)
      (mark ++ "[L" ++ toString level ++ "] " ++ v.id ++ valueText r point v.id ++ d.role v) := by
  obtain ⟨x, hx, hat⟩ := hvalue v hv
  refine ⟨mark, _, hmark, .opened hx, ?_⟩
  rw [valueText, hat, Option.elim_some]
  simp only [String.append_assoc]

theorem forall₂_linesAll_cons {depth : Nat} {stem : String} (hstem : IsMark depth stem) {t : Trace}
    {ts : List Trace}
    (ht : ∀ under mark, IsMark (depth + 1) under → IsMark (depth + 1) mark →
      List.Forall₂ (IsLine d r point) (t.placed (depth + 1)) (t.lines d r point under mark))
    (hts : List.Forall₂ (IsLine d r point) (placedAll (depth + 1) ts)
      (linesAll d r point stem ts)) :
    List.Forall₂ (IsLine d r point) (placedAll (depth + 1) (t :: ts))
      (linesAll d r point stem (t :: ts)) := by
  obtain ⟨under, mark, hunder, hmark, hlines⟩ := linesAll_cons (d := d) (r := r) stem t ts
  rw [hlines, placedAll]
  exact List.rel_append (ht _ _ (hstem.append hunder) (hstem.append hmark)) hts

theorem Visits.forall₂_lines {leads : Variable → List Variable} {R : String → String → Prop}
    (hl : Leading d.nodes leads R)
    (hvalue : ∀ v ∈ d.nodes, ∃ x, r.Holds point v x ∧ r.valueAt? point v.id = some x)
    {level : Nat} {vs : List Variable} {seen seen' : Opened} {ts : List Trace}
    (h : Visits leads level vs seen ts seen') (hvs : ∀ v ∈ vs, v ∈ d.nodes) {depth : Nat}
    {stem : String} (hstem : IsMark depth stem) :
    List.Forall₂ (IsLine d r point) (placedAll (depth + 1) ts) (linesAll d r point stem ts) := by
  induction h generalizing depth stem with
  | nil => exact .nil
  | met _ _ ih =>
    rw [List.forall_mem_cons] at hvs
    refine forall₂_linesAll_cons hstem (fun under mark _ hmark ↦ ?_) (ih hvs.2 hstem)
    refine .cons ⟨mark, _, hmark, .met, ?_⟩ .nil
    simp only [String.append_assoc]
  | opened _ _ _ ihchildren ihrest =>
    rw [List.forall_mem_cons] at hvs
    refine forall₂_linesAll_cons hstem (fun under mark hunder hmark ↦ ?_) (ihrest hvs.2 hstem)
    exact .cons (isLine_opened hvalue hvs.1 hmark) (ihchildren (hl.closed _ hvs.1) hunder)

def heading (target : String) (time : Float) : String :=
  "TRACE for '" ++ target ++ "' at time " ++ Spelling.sentence.write time ++ ":\n" ++
    String.ofList (List.replicate 50 '-') ++ "\n"

end Trace

theorem Model.exists_trace {m : Model} (hw : m.document.WellDeclared)
    (hparse : ∀ e ∈ m.document.equations, ∃ t, Equation.parse e.2 = .ok t) {target : String}
    (htarget : target ∈ m.document.ids) :
    ∃ v t seen, v ∈ m.document.nodes ∧ v.id = target ∧ m.trace? target = some t ∧
      Trace.Visits (m.document.leads (Graph.ofDocument m.document)) 1 [v] [] [t] seen := by
  obtain ⟨v, hv⟩ := Document.exists_find? htarget
  obtain ⟨hnode, hid⟩ := Document.find?_mem_nodes hv
  have hnone : Trace.Sound m.document.nodes [] := ⟨List.nodup_nil, by simp⟩
  have hvisits := Trace.visits_ofNode (Document.leading hw hparse)
    ((Graph.ofDocument m.document).count + 1) 1 hnode hnone
    (by simp [Graph.count, Graph.ofDocument])
  refine ⟨v, _, _, hnode, hid, ?_, hvisits⟩
  rw [Model.trace?, hv]
  rfl

theorem Model.trace?_eq_none {m : Model} {target : String} :
    m.trace? target = none ↔ target ∉ m.document.ids := by
  rw [Model.trace?, Option.map_eq_none_iff]
  constructor
  · intro h htarget
    obtain ⟨v, hv⟩ := Document.exists_find? htarget
    rw [h] at hv
    cases hv
  · intro h
    refine Option.eq_none_iff_forall_ne_some.mpr fun v hv ↦ h ?_
    obtain ⟨hnode, hid⟩ := Document.find?_mem_nodes hv
    exact hid ▸ Document.mem_ids_of_idsOf (Document.id_mem_idsOf hnode)

theorem Model.exists_traceText_eq_error {m : Model} {r : Trajectory} {target : String} {point : Nat}
    (h : ¬(target ∈ m.document.ids ∧ point < r.points)) :
    ∃ why, m.traceText r target point = "Error: " ++ why := by
  rw [Model.traceText]
  cases htrace : m.trace? target with
  | none =>
    refine ⟨"'" ++ target ++ "' is not declared in this model\n", ?_⟩
    simp only [← String.append_assoc]
    rfl
  | some t =>
    have htarget : target ∈ m.document.ids := by
      by_contra hnot
      rw [Model.trace?_eq_none.mpr hnot] at htrace
      cases htrace
    have htime : r.time[point]? = none :=
      List.getElem?_eq_none (Nat.not_lt.mp fun hpoint ↦ h ⟨htarget, hpoint⟩)
    refine ⟨"grid point " ++ toString point ++ " is out of range (0.." ++
      toString r.points ++ ")\n", ?_⟩
    simp only [htime, ← String.append_assoc]
    rfl

open Trace in
/-- A trace ends by itself, whatever leads back to what. It has a line of its own for just the
variables that the target hangs on, each with its value, and the level of each is one more than that
of the line that it hangs under. -/
theorem traceText_complete (domain : Domain) (d : Document) (m : Model)
    (h : domain.validate d = .ok m) (overrides : NameMap Float) (limit : Nat) (r : Trajectory)
    (hr : m.simulate overrides limit = .ok r) (target : String) (htarget : target ∈ m.document.ids)
    (point : Nat) (hpoint : point < r.points) :
    ∃ v t seen time lines, v ∈ m.document.nodes ∧ v.id = target ∧ r.time[point]? = some time ∧
      Visits (m.document.leads (Graph.ofDocument m.document)) 1 [v] [] [t] seen ∧
      Complete m.document.HangsOn target t ∧
      m.traceText r target point = heading target time ++ String.join (lines.map (· ++ "\n")) ∧
      List.Forall₂ (IsLine m.document r point) (t.placed 0) lines := by
  have hagain := Domain.validate_complete h
  have hacceptable := Domain.acceptable_of_validate hagain
  obtain ⟨moments, -, -, hshows⟩ := (Model.runs_of_validate hagain).1.exists_moments rfl hr
  have hw := hacceptable.wellDeclared
  have hl := Document.leading hw hacceptable.exists_parse
  have hvalue := fun v hv ↦ hshows.exists_value hw hpoint (v := v) hv
  obtain ⟨v, t, seen, hv, rfl, htrace, hvisits⟩ :=
    Model.exists_trace hw hacceptable.exists_parse htarget
  have htime : r.time[point]? = some r.time[point] := List.getElem?_eq_getElem hpoint
  refine ⟨v, t, seen, _, t.lines m.document r point "" "", hv, rfl, htime, hvisits,
    hvisits.complete hl hv, ?_, ?_⟩
  · rw [Model.traceText, htrace, htime]
    rfl
  · cases hvisits with
    | met hmet => simp at hmet
    | opened _ hchildren _ =>
      exact .cons (isLine_opened hvalue hv isMark_zero)
        (hchildren.forall₂_lines hl hvalue (hl.closed v hv) isMark_zero)

open Trace in
/-- The promotion rate hangs on two stocks, which both hang on the promotion rate. -/
theorem traceText_complete_training :
    ∃ m r, Domain.aerodin.validate training = .ok m ∧
      m.simulate (.ofList [("training_time", 4)]) 10 = .ok r ∧
      "promotion_rate" ∈ m.document.ids ∧ 1 < r.points ∧
      ∃ v t seen time lines, v ∈ m.document.nodes ∧ v.id = "promotion_rate" ∧
        r.time[1]? = some time ∧
        Visits (m.document.leads (Graph.ofDocument m.document)) 1 [v] [] [t] seen ∧
        Complete m.document.HangsOn "promotion_rate" t ∧
        m.traceText r "promotion_rate" 1 =
          heading "promotion_rate" time ++ String.join (lines.map (· ++ "\n")) ∧
        List.Forall₂ (IsLine m.document r 1) (t.placed 0) lines := by
  have hpoints : (Domain.aerodin.validate training).toOption.bind (fun m ↦
      (m.simulate (.ofList [("training_time", 4)]) 10).toOption.map (·.points)) = some 3 := by
    decide +kernel
  obtain ⟨m, hm, hr⟩ := Option.bind_eq_some_iff.mp hpoints
  obtain ⟨r, hr, hpoints⟩ := Option.map_eq_some_iff.mp hr
  rw [Except.toOption_eq_some] at hm hr
  have htarget : "promotion_rate" ∈ m.document.ids := by
    rw [Domain.document_of_validate hm]
    decide
  have hpoint : 1 < r.points := by
    rw [hpoints]
    decide
  exact ⟨m, r, hm, hr, htarget, hpoint,
    traceText_complete .aerodin training m hm _ 10 r hr "promotion_rate" htarget 1 hpoint⟩

example : (Domain.aerodin.validate training).toOption.bind (fun m ↦
    (m.trace? "promotion_rate").map fun t ↦ Trace.openings (t.placed 0)) =
      some [("promotion_rate", 1), ("training_time", 2), ("workforce_gap", 2),
        ("skilled_engineers", 3), ("total_workforce", 3), ("junior_engineers", 4)] := by
  decide +kernel

end SystemDynamics
