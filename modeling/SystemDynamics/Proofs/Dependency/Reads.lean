import SystemDynamics.Proofs.Simulation.Naming

namespace SystemDynamics

open Dependency (Graph Leads cycles_eq_nil_of_acyclic mem_reached_iff)
open Equation (Term)
open Relation (TransGen)

theorem mem_namesIn_of_parse {equation : String} {t : Term String}
    (h : Equation.parse equation = .ok t) {name : String} :
    name ∈ namesIn equation → name ∈ t.names ∨ Equation.isBuiltin name = true := by
  obtain ⟨lexemes, hlexemes, hleaves⟩ := Equation.parse_leaves h
  intro hname
  refine Equation.Term.mem_names_of_leaf ?_
  rw [namesIn, Equation.identifiers, hlexemes] at hname
  obtain ⟨l, hl, ht⟩ := List.mem_filterMap.mp hname
  rw [hleaves, Equation.leavesOf, List.mem_filter]
  cases hlt : l.token <;>
    simp only [hlt, Equation.Token.name?, reduceCtorEq, Option.some.injEq] at ht
  exact ⟨List.mem_map.mpr ⟨l, hl, by rw [hlt, ht]⟩, rfl⟩

namespace Document

variable (d : Document)

/-- The equation of a declaration reads another one. -/
def Reads (reader read : String) : Prop :=
  ∃ equation t, (reader, equation) ∈ d.equations ∧ Equation.parse equation = .ok t ∧
    read ∈ t.names ∧ read ∈ d.ids

variable {d}

theorem mem_ids_of_reads {reader read : String} (h : TransGen d.Reads reader read) :
    read ∈ d.ids := by
  obtain ⟨-, -, equation, t, -, -, -, hids⟩ := Relation.TransGen.tail'_iff.mp h
  exact hids

theorem exists_node_of_mem_ids {id : String} (h : id ∈ d.ids) :
    ∃ (n : Nat) (v : Variable), d.nodes[n]? = some v ∧ v.id = id := by
  obtain ⟨v, hv, rfl⟩ := List.mem_map.mp (mem_nodes_ids.mpr h)
  obtain ⟨n, hn⟩ := List.getElem?_of_mem hv
  exact ⟨n, v, hn, rfl⟩

theorem rank?_eq_none {id : String} (h : id ∉ d.ids) :
    (Graph.ofDocument d).rank? id = none := by
  rw [← mem_nodes_ids, List.mem_map] at h
  refine List.findIdx?_eq_none_iff.mpr fun v hv ↦ ?_
  by_contra hid
  exact h ⟨v, hv, by simpa using hid⟩

namespace WellDeclared

variable (hw : d.WellDeclared)

include hw

theorem rank?_eq {n : Nat} {v : Variable} (hv : d.nodes[n]? = some v) :
    (Graph.ofDocument d).rank? v.id = some n := by
  obtain ⟨m, hm⟩ : ∃ m, (Graph.ofDocument d).rank? v.id = some m := by
    rw [Graph.rank?, Graph.rankIn, ← Option.isSome_iff_exists, List.findIdx?_isSome, List.any_eq_true]
    exact ⟨v, List.mem_of_getElem? hv, by simp⟩
  obtain ⟨hlt, hid, -⟩ := List.findIdx?_eq_some_iff_getElem.mp hm
  rw [hm, hw.rank_unique (List.getElem?_eq_getElem hlt) hv (by simpa using hid)]

theorem leads_iff (hparse : ∀ e ∈ d.equations, ∃ t, Equation.parse e.2 = .ok t) {n m : Nat}
    {v u : Variable} (hv : d.nodes[n]? = some v) (hu : d.nodes[m]? = some u) :
    Leads (Graph.ofDocument d).readsOf n m ↔ d.Reads v.id u.id := by
  rw [Leads, Graph.mem_readsOf_iff]
  constructor
  · rintro ⟨e, he, name, hname, hrank⟩
    obtain ⟨c, hc, he⟩ := Option.bind_eq_some_iff.mp he
    rw [Graph.computedAt, hv] at hc
    have hmem := mem_equations_of_equation he
    obtain ⟨t, ht⟩ := hparse e hmem
    obtain ⟨hlt, hid, -⟩ := List.findIdx?_eq_some_iff_getElem.mp hrank
    obtain rfl : u.id = name := by
      rw [List.getElem?_eq_getElem hlt, Option.some_inj] at hu
      rw [← hu]
      simpa using hid
    have hids : u.id ∈ d.ids := mem_nodes_ids.mp (List.mem_map_of_mem (List.mem_of_getElem? hu))
    refine ⟨e.2, t, ?_, ht, ?_, hids⟩
    · rwa [← equation?_id hv hc he]
    · refine (mem_namesIn_of_parse ht hname).resolve_right fun hbuiltin ↦ ?_
      have hreserved := hw.unreserved _ hids
      simp [Validation.isReserved, hbuiltin] at hreserved
  · rintro ⟨equation, t, hmem, ht, hname, hids⟩
    obtain ⟨c, hc, he⟩ := mem_equations_iff.mp hmem
    obtain ⟨k, w, hw', hwc⟩ := exists_node hc
    obtain rfl := hw.rank_unique hw' hv (equation?_id hw' hwc he).symm
    refine ⟨(v.id, equation), ?_, u.id, ?_, hw.rank?_eq hu⟩
    · rw [Graph.computedAt, hw', Option.bind_some, hwc]
      exact he
    · obtain ⟨names, hnames, hsub⟩ := Equation.parse_names ht
      rw [namesIn, hnames]
      exact hsub hname

theorem transGen_leads_iff (hparse : ∀ e ∈ d.equations, ∃ t, Equation.parse e.2 = .ok t)
    {n m : Nat} {v u : Variable} (hv : d.nodes[n]? = some v) (hu : d.nodes[m]? = some u) :
    TransGen (Leads (Graph.ofDocument d).readsOf) n m ↔ TransGen d.Reads v.id u.id := by
  constructor
  · intro h
    induction h generalizing u with
    | single h => exact .single ((hw.leads_iff hparse hv hu).mp h)
    | tail _ h ih =>
      have hk := List.getElem?_eq_getElem (Graph.bounded d _ _ h).1
      exact (ih hk).tail ((hw.leads_iff hparse hk hu).mp h)
  · intro h
    generalize hid : u.id = id at h
    induction h generalizing m u with
    | single h =>
      subst hid
      exact .single ((hw.leads_iff hparse hv hu).mpr h)
    | tail hab h ih =>
      subst hid
      obtain ⟨k, x, hx, rfl⟩ := exists_node_of_mem_ids (mem_ids_of_reads hab)
      exact (ih hx rfl).tail ((hw.leads_iff hparse hx hu).mpr h)

theorem cycles_eq_nil_iff (hparse : ∀ e ∈ d.equations, ∃ t, Equation.parse e.2 = .ok t) :
    (Graph.ofDocument d).cycles = [] ↔ ∀ id, ¬ TransGen d.Reads id id := by
  constructor
  · intro h id hloop
    obtain ⟨n, v, hv, rfl⟩ := exists_node_of_mem_ids (mem_ids_of_reads hloop)
    exact Graph.acyclic h n ((hw.transGen_leads_iff hparse hv hv).mpr hloop)
  · intro h
    refine List.map_eq_nil_iff.mpr (cycles_eq_nil_of_acyclic (Graph.bounded d) fun n hloop ↦ ?_)
    obtain ⟨k, hk, -⟩ := Relation.TransGen.head'_iff.mp hloop
    have hn := List.getElem?_eq_getElem (Graph.bounded d _ _ hk).1
    exact h _ ((hw.transGen_leads_iff hparse hn hn).mp hloop)

theorem dependsOn_iff (hparse : ∀ e ∈ d.equations, ∃ t, Equation.parse e.2 = .ok t)
    (hacyclic : ∀ id, ¬ TransGen d.Reads id id) {id target : String} (hid : id ∈ d.ids) :
    (Graph.ofDocument d).dependsOn id target = true ↔ TransGen d.Reads id target := by
  obtain ⟨n, v, hv, rfl⟩ := exists_node_of_mem_ids hid
  have hn := (List.getElem?_eq_some_iff.mp hv).1
  rw [Graph.dependsOn, hw.rank?_eq hv]
  by_cases ht : target ∈ d.ids
  · obtain ⟨m, u, hu, rfl⟩ := exists_node_of_mem_ids ht
    rw [hw.rank?_eq hu, ← hw.transGen_leads_iff hparse hv hu]
    simp only [bne_iff_ne, ne_eq, Bool.and_eq_true, List.contains_iff_mem,
      mem_reached_iff (Graph.bounded d) hn, Relation.reflTransGen_iff_eq_or_transGen]
    by_cases hnm : n = m
    · subst hnm
      simp [hw.transGen_leads_iff hparse hv hv, hacyclic v.id]
    · simp [hnm, Ne.symm hnm]
  · rw [rank?_eq_none ht]
    simp only [Bool.false_eq_true, false_iff]
    exact fun h ↦ ht (mem_ids_of_reads h)

end WellDeclared

end Document

end SystemDynamics
