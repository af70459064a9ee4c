import SystemDynamics.Proofs.Dependency.Order

namespace SystemDynamics

open Dependency (Graph Leads)
open Relation (ReflTransGen TransGen)

namespace Document

variable (d : Document)

/-- The equation of a declaration names another one. A name stands for its first declaration. -/
def Names (u v : Variable) : Prop :=
  u ∈ d.nodes ∧ ∃ e, u.computed?.bind d.equation? = some e ∧
    ∃ name ∈ namesIn e.2, d.nodes.find? (·.id == name) = some v

/-- Two declarations lead to each other. -/
def Mutual (u v : Variable) : Prop :=
  TransGen d.Names u v ∧ TransGen d.Names v u

/-- The components of the declarations in which some path returns to its start: members and
components in the order of rank, each component once. -/
structure Components (components : List (List Variable)) : Prop where
  sublist : ∀ c ∈ components, c.Sublist d.nodes
  ordered : components.Pairwise fun c c' ↦
    ∀ u ∈ c.head?, ∀ v ∈ c'.head?, [u, v].Sublist d.nodes
  disjoint : components.Pairwise List.Disjoint
  together : ∀ u v, u ≠ v → ((∃ c ∈ components, u ∈ c ∧ v ∈ c) ↔ d.Mutual u v)
  alone : ∀ u, [u] ∈ components ↔ d.Names u u ∧ ∀ v, v ≠ u → ¬ d.Mutual u v
  nonempty : ∀ c ∈ components, c ≠ []
  first : ∀ c ∈ components, ∀ u ∈ c, d.nodes.find? (·.id == u.id) = some u

/-- An order of all auxiliaries and flows, each once and after those that its equation names. -/
structure Orders (order : List Computed) : Prop where
  perm : order.Perm d.computed
  after : ∀ before c rest, order = before ++ c :: rest → ∀ u v c', d.Names u v →
    u.computed? = some c → v.computed? = some c' → c' ∈ before

variable {d}

theorem nodes_unique {n m : Nat} {v : Variable} (hn : d.nodes[n]? = some v)
    (hm : d.nodes[m]? = some v) : n = m :=
  (nodes_getElem?_eq_some hn).2.trans (nodes_getElem?_eq_some hm).2.symm

theorem find?_nodes_eq_some {name : String} {v : Variable} :
    d.nodes.find? (·.id == name) = some v ↔
      ∃ n, Graph.rankIn d.nodes name = some n ∧ d.nodes[n]? = some v := by
  rw [Graph.rankIn]
  generalize d.nodes = vs
  induction vs with
  | nil => simp
  | cons u vs ih =>
    rw [List.find?_cons, List.findIdx?_cons]
    by_cases h : (u.id == name) = true
    · simp [h]
    · simp only [h, ih, Bool.false_eq_true, if_false]
      constructor
      · rintro ⟨n, hn, hv⟩
        exact ⟨n + 1, by simp [hn], by simpa using hv⟩
      · rintro ⟨n, hn, hv⟩
        obtain ⟨k, hk, rfl⟩ := Option.map_eq_some_iff.mp hn
        exact ⟨k, hk, by simpa using hv⟩

theorem leads_iff_names {n m : Nat} {u v : Variable} (hu : d.nodes[n]? = some u)
    (hv : d.nodes[m]? = some v) : Leads (Graph.ofDocument d).readsOf n m ↔ d.Names u v := by
  rw [Leads, Graph.mem_readsOf_iff, Graph.computedAt, hu, Option.bind_some, Names,
    and_iff_right (List.mem_of_getElem? hu)]
  refine exists_congr fun e ↦ and_congr_right fun _ ↦ exists_congr fun name ↦
    and_congr_right fun _ ↦ ?_
  rw [find?_nodes_eq_some]
  constructor
  · exact fun h ↦ ⟨m, h, hv⟩
  · rintro ⟨k, hk, hkv⟩
    rwa [nodes_unique hv hkv]

theorem mem_nodes_of_names {u v : Variable} (h : d.Names u v) : v ∈ d.nodes := by
  obtain ⟨-, e, -, name, -, hv⟩ := h
  exact List.mem_of_find?_eq_some hv

theorem transGen_leads_iff_names {n m : Nat} {u v : Variable} (hu : d.nodes[n]? = some u)
    (hv : d.nodes[m]? = some v) :
    TransGen (Leads (Graph.ofDocument d).readsOf) n m ↔ TransGen d.Names u v := by
  constructor
  · intro h
    induction h generalizing v with
    | single h => exact .single ((leads_iff_names hu hv).mp h)
    | tail _ h ih =>
      have hk := List.getElem?_eq_getElem (Graph.bounded d _ _ h).1
      exact (ih hk).tail ((leads_iff_names hk hv).mp h)
  · intro h
    induction h generalizing m with
    | single h => exact .single ((leads_iff_names hu hv).mpr h)
    | tail _ h ih =>
      obtain ⟨k, hk⟩ := List.getElem?_of_mem h.1
      exact (ih hk).tail ((leads_iff_names hk hv).mpr h)

theorem Mutual.mem_nodes {u v : Variable} (h : d.Mutual u v) : u ∈ d.nodes ∧ v ∈ d.nodes := by
  obtain ⟨_, -, hu⟩ := Relation.TransGen.tail'_iff.mp h.2
  obtain ⟨_, -, hv⟩ := Relation.TransGen.tail'_iff.mp h.1
  exact ⟨mem_nodes_of_names hu, mem_nodes_of_names hv⟩

theorem pair_sublist_nodes {n m : Nat} {u v : Variable} (hu : d.nodes[n]? = some u)
    (hv : d.nodes[m]? = some v) (h : n < m) : [u, v].Sublist d.nodes := by
  obtain ⟨hn, rfl⟩ := List.getElem?_eq_some_iff.mp hu
  obtain ⟨hm, rfl⟩ := List.getElem?_eq_some_iff.mp hv
  have hpair : [(⟨n, hn⟩ : Fin d.nodes.length), ⟨m, hm⟩].Pairwise (· < ·) := by simpa using h
  exact List.map_getElem_sublist hpair

theorem nodes_nodup (d : Document) : d.nodes.Nodup := by
  rw [List.nodup_iff_getElem?_ne_getElem?]
  intro n m hnm hm heq
  have hv := List.getElem?_eq_getElem hm
  exact hnm.ne (nodes_unique (heq.trans hv) hv)

variable (d)

def componentAt (n : Nat) : List Variable :=
  (Dependency.membersOf (Graph.ofDocument d).readsOf (Graph.ofDocument d).count n).filterMap
    fun n ↦ d.nodes[n]?

/-- The declarations of each cycle. -/
def cycles : List (List Variable) :=
  (Dependency.cycles (Graph.ofDocument d).readsOf (Graph.ofDocument d).count).map fun c ↦
    c.filterMap fun n ↦ d.nodes[n]?

theorem graph_cycles : (Graph.ofDocument d).cycles = d.cycles.map fun c ↦ c.map (·.id) := by
  simp only [Graph.cycles, cycles, List.map_map, Function.comp_def, List.map_filterMap]
  rfl

theorem componentAt_sublist (n : Nat) : (d.componentAt n).Sublist d.nodes := by
  have hall := filterMap_range d.nodes some
  simp only [Option.bind_fun_some, List.filterMap_some] at hall
  have h : (Dependency.membersOf (Graph.ofDocument d).readsOf (Graph.ofDocument d).count n).Sublist
      (List.range d.nodes.length) := Dependency.membersOf_sublist n
  simpa only [componentAt, hall] using h.filterMap fun n ↦ d.nodes[n]?

variable {d} {n : Nat} {u v : Variable}

theorem mem_membersOf_iff {m : Nat} (hu : d.nodes[n]? = some u) (hv : d.nodes[m]? = some v) :
    m ∈ Dependency.membersOf (Graph.ofDocument d).readsOf (Graph.ofDocument d).count n ↔
      v = u ∨ d.Mutual u v := by
  have hn := (List.getElem?_eq_some_iff.mp hu).1
  have hm : m < (Graph.ofDocument d).count := (List.getElem?_eq_some_iff.mp hv).1
  rw [Dependency.mem_membersOf_iff (Graph.bounded d) hn, and_iff_right hm, Mutual,
    ← transGen_leads_iff_names hu hv, ← transGen_leads_iff_names hv hu,
    Relation.reflTransGen_iff_eq_or_transGen, Relation.reflTransGen_iff_eq_or_transGen,
    eq_comm (a := n)]
  have hsame : m = n ↔ v = u := by
    constructor
    · rintro rfl
      exact Option.some.inj (hv.symm.trans hu)
    · rintro rfl
      exact nodes_unique hv hu
  tauto

theorem mem_componentAt (hu : d.nodes[n]? = some u) :
    v ∈ d.componentAt n ↔ v = u ∨ d.Mutual u v := by
  rw [componentAt, List.mem_filterMap]
  constructor
  · rintro ⟨m, hm, hv⟩
    exact (mem_membersOf_iff hu hv).mp hm
  · intro h
    have hmem : v ∈ d.nodes := h.elim (fun he ↦ he ▸ List.mem_of_getElem? hu) (·.mem_nodes.2)
    obtain ⟨m, hv⟩ := List.getElem?_of_mem hmem
    exact ⟨m, (mem_membersOf_iff hu hv).mpr h, hv⟩

theorem membersOf_mem_cycles_iff (hu : d.nodes[n]? = some u) :
    Dependency.membersOf (Graph.ofDocument d).readsOf (Graph.ofDocument d).count n ∈
        Dependency.cycles (Graph.ofDocument d).readsOf (Graph.ofDocument d).count ↔
      (∃ v ≠ u, d.Mutual u v) ∨ d.Names u u := by
  have hn := (List.getElem?_eq_some_iff.mp hu).1
  rw [Dependency.membersOf_mem_cycles_iff (Graph.bounded d) hn]
  refine or_congr ?_ (leads_iff_names hu hu)
  constructor
  · rintro ⟨m, hne, hm⟩
    obtain ⟨v, hv⟩ : ∃ v, d.nodes[m]? = some v := ⟨_, List.getElem?_eq_getElem
      ((Dependency.mem_membersOf_iff (Graph.bounded d) hn).mp hm).1⟩
    have hne' : v ≠ u := fun he ↦ hne (nodes_unique (he ▸ hv) hu)
    exact ⟨v, hne', ((mem_membersOf_iff hu hv).mp hm).resolve_left hne'⟩
  · rintro ⟨v, hne, h⟩
    obtain ⟨m, hv⟩ := List.getElem?_of_mem h.mem_nodes.2
    refine ⟨m, ?_, (mem_membersOf_iff hu hv).mpr (.inr h)⟩
    rintro rfl
    exact hne (Option.some.inj (hv.symm.trans hu))

theorem componentAt_mem_cycles (hu : d.nodes[n]? = some u)
    (h : (∃ v ≠ u, d.Mutual u v) ∨ d.Names u u) : d.componentAt n ∈ d.cycles :=
  List.mem_map_of_mem ((membersOf_mem_cycles_iff hu).mpr h)

theorem exists_rank {c : List Variable} (hc : c ∈ d.cycles) (hu : u ∈ c) :
    ∃ n, d.nodes[n]? = some u ∧ d.componentAt n = c ∧
      ((∃ v ≠ u, d.Mutual u v) ∨ d.Names u u) := by
  obtain ⟨ns, hns, rfl⟩ := List.mem_map.mp hc
  obtain ⟨n, hn, hnu⟩ := List.mem_filterMap.mp hu
  obtain rfl := Dependency.membersOf_eq_of_mem (Graph.bounded d) hns hn
  exact ⟨n, hnu, rfl, (membersOf_mem_cycles_iff hnu).mp hns⟩

theorem together_iff (hne : u ≠ v) : (∃ c ∈ d.cycles, u ∈ c ∧ v ∈ c) ↔ d.Mutual u v := by
  constructor
  · rintro ⟨c, hc, hu, hv⟩
    obtain ⟨n, hn, rfl, -⟩ := exists_rank hc hu
    exact ((mem_componentAt hn).mp hv).resolve_left hne.symm
  · intro h
    obtain ⟨n, hn⟩ := List.getElem?_of_mem h.mem_nodes.1
    exact ⟨_, componentAt_mem_cycles hn (.inl ⟨v, hne.symm, h⟩), (mem_componentAt hn).mpr (.inl rfl),
      (mem_componentAt hn).mpr (.inr h)⟩

theorem alone_iff : [u] ∈ d.cycles ↔ d.Names u u ∧ ∀ v, v ≠ u → ¬ d.Mutual u v := by
  constructor
  · intro hc
    obtain ⟨n, hn, hmembers, hback⟩ := exists_rank hc (List.mem_singleton_self u)
    have honly : ∀ v, v ≠ u → ¬ d.Mutual u v := by
      intro v hne h
      have hv := (mem_componentAt hn).mpr (.inr h)
      rw [hmembers] at hv
      exact hne (List.mem_singleton.mp hv)
    refine ⟨hback.resolve_left ?_, honly⟩
    rintro ⟨v, hne, h⟩
    exact honly v hne h
  · rintro ⟨hself, honly⟩
    obtain ⟨n, hn⟩ := List.getElem?_of_mem hself.1
    have hperm : (d.componentAt n).Perm [u] := by
      refine (List.perm_ext_iff_of_nodup ((d.componentAt_sublist n).nodup d.nodes_nodup)
        (List.nodup_singleton u)).mpr fun v ↦ ?_
      rw [mem_componentAt hn, List.mem_singleton]
      refine or_iff_left_of_imp fun h ↦ ?_
      by_contra hne
      exact honly v hne h
    rw [← List.perm_singleton.mp hperm]
    exact componentAt_mem_cycles hn (.inr hself)

theorem find?_of_mem_cycles {c : List Variable} (hc : c ∈ d.cycles) (hu : u ∈ c) :
    d.nodes.find? (·.id == u.id) = some u := by
  obtain ⟨v, hv⟩ : ∃ v, d.Names v u := by
    obtain ⟨n, -, -, ⟨v, -, h⟩ | hself⟩ := exists_rank hc hu
    · obtain ⟨w, -, hw⟩ := Relation.TransGen.tail'_iff.mp h.2
      exact ⟨w, hw⟩
    · exact ⟨u, hself⟩
  obtain ⟨-, e, -, name, -, hu⟩ := hv
  have hid : u.id = name := by simpa using List.find?_some hu
  rwa [hid]

theorem cycles_eq (d : Document) : d.cycles =
    ((List.range d.nodes.length).filter
      (Dependency.heads (Graph.ofDocument d).readsOf (Graph.ofDocument d).count)).map
        d.componentAt := by
  rw [cycles, Dependency.cycles_eq, List.map_map]
  rfl

theorem exists_head {n : Nat} (h : n ∈ (List.range d.nodes.length).filter
    (Dependency.heads (Graph.ofDocument d).readsOf (Graph.ofDocument d).count)) :
    ∃ u, d.nodes[n]? = some u ∧ (d.componentAt n).head? = some u := by
  rw [List.mem_filter, List.mem_range, Dependency.heads, Bool.and_eq_true, beq_iff_eq] at h
  obtain ⟨rest, hmembers⟩ := List.head?_eq_some_iff.mp h.2.1
  obtain ⟨u, hu⟩ : ∃ u, d.nodes[n]? = some u := ⟨_, List.getElem?_eq_getElem h.1⟩
  exact ⟨u, hu, by rw [componentAt, hmembers, List.filterMap_cons_some hu, List.head?_cons]⟩

theorem components_cycles (d : Document) : d.Components d.cycles where
  sublist c hc := by
    rw [cycles_eq, List.mem_map] at hc
    obtain ⟨n, -, rfl⟩ := hc
    exact d.componentAt_sublist n
  ordered := by
    rw [cycles_eq, List.pairwise_map]
    refine (List.pairwise_lt_range.filter _).imp_of_mem fun {n m} hn hm hlt u hu v hv ↦ ?_
    obtain ⟨u', hnu, hhead⟩ := exists_head hn
    obtain ⟨v', hmv, hhead'⟩ := exists_head hm
    obtain rfl := Option.some.inj (hhead.symm.trans hu)
    obtain rfl := Option.some.inj (hhead'.symm.trans hv)
    exact pair_sublist_nodes hnu hmv hlt
  disjoint := by
    have hmem : ∀ n, n ∈ (List.range d.nodes.length).filter (Dependency.heads
        (Graph.ofDocument d).readsOf (Graph.ofDocument d).count) → d.componentAt n ∈ d.cycles := by
      intro n hn
      rw [cycles_eq]
      exact List.mem_map_of_mem hn
    rw [cycles_eq, List.pairwise_map]
    refine (List.pairwise_lt_range.filter _).imp_of_mem fun {n m} hn hm hlt w hwn hwm ↦ ?_
    -- A declaration in both would have both as its component, and they have different heads.
    obtain ⟨u, hu, hhead⟩ := exists_head hn
    obtain ⟨v, hv, hhead'⟩ := exists_head hm
    obtain ⟨k, hk, hkn, -⟩ := exists_rank (hmem n hn) hwn
    obtain ⟨k', hk', hkm, -⟩ := exists_rank (hmem m hm) hwm
    obtain rfl := nodes_unique hk hk'
    rw [← hkn, hkm, hhead', Option.some_inj] at hhead
    exact hlt.ne (nodes_unique hu (hhead ▸ hv))
  together _ _ := together_iff
  alone _ := alone_iff
  nonempty c hc := by
    rw [cycles_eq, List.mem_map] at hc
    obtain ⟨n, hn, rfl⟩ := hc
    obtain ⟨u, -, hhead⟩ := exists_head hn
    exact List.ne_nil_of_mem (List.mem_of_mem_head? hhead)
  first _ hc _ := find?_of_mem_cycles hc

theorem computed_nodup (d : Document) : d.computed.Nodup := by
  rw [computed, List.nodup_append']
  refine ⟨List.nodup_range.map fun _ _ h ↦ Computed.auxiliary.inj h,
    List.nodup_range.map fun _ _ h ↦ Computed.flow.inj h, ?_⟩
  simp [List.disjoint_left]

theorem Names.exists_computed (h : d.Names u v) : ∃ c ∈ d.computed, u.computed? = some c := by
  obtain ⟨-, e, he, -⟩ := h
  obtain ⟨c, hc, he⟩ := Option.bind_eq_some_iff.mp he
  exact ⟨c, mem_computed_of_equation he, hc⟩

theorem Orders.idxOf_lt {order : List Computed} (h : d.Orders order) (huv : TransGen d.Names u v)
    {c c' : Computed} (hc : u.computed? = some c) (hc' : v.computed? = some c') :
    order.idxOf c' < order.idxOf c := by
  have hstep : ∀ {w x : Variable} {c c' : Computed}, d.Names w x → w.computed? = some c →
      x.computed? = some c' → order.idxOf c' < order.idxOf c := by
    intro w x c c' hwx hc hc'
    obtain ⟨_, hmem, hw⟩ := hwx.exists_computed
    obtain rfl := Option.some.inj (hw.symm.trans hc)
    obtain ⟨before, rest, rfl⟩ := List.append_of_mem (h.perm.mem_iff.mpr hmem)
    have hnodup := h.perm.nodup_iff.mpr d.computed_nodup
    have hc := (List.disjoint_right.mp (List.nodup_append'.mp hnodup).2.2) List.mem_cons_self
    have hc' := h.after before _ rest rfl w x c' hwx hw hc'
    rw [List.idxOf_append_of_mem hc', List.idxOf_append_of_notMem hc, List.idxOf_cons_self]
    exact List.idxOf_lt_length_of_mem hc'
  induction huv generalizing c' with
  | single huv => exact hstep huv hc hc'
  | tail _ hwx ih =>
    obtain ⟨_, -, hw⟩ := hwx.exists_computed
    exact (hstep hwx hw hc').trans (ih hw)

theorem Orders.acyclic {order : List Computed} (h : d.Orders order) (u : Variable) :
    ¬ TransGen d.Names u u := by
  intro hloop
  obtain ⟨_, hu, -⟩ := Relation.TransGen.head'_iff.mp hloop
  obtain ⟨_, -, hc⟩ := hu.exists_computed
  exact (h.idxOf_lt hloop hc hc).false

theorem Orders.cycles_eq_nil {order : List Computed} (h : d.Orders order) : d.cycles = [] := by
  refine List.eq_nil_iff_forall_not_mem.mpr fun c hc ↦ ?_
  obtain ⟨u, hu⟩ := List.exists_mem_of_ne_nil c (d.components_cycles.nonempty c hc)
  obtain ⟨-, -, -, ⟨v, -, hmutual⟩ | hself⟩ := exists_rank hc hu
  · exact h.acyclic u (hmutual.1.trans hmutual.2)
  · exact h.acyclic u (.single hself)

theorem orders_of_evaluationOrder {order : List Computed}
    (h : (Graph.ofDocument d).evaluationOrder = .ok order) : d.Orders order where
  perm := Graph.evaluationOrder_perm h
  after := by
    rintro before c rest rfl u v c' ⟨-, e, he, name, hname, hv⟩ hc hc'
    obtain ⟨m, hm, hmv⟩ := find?_nodes_eq_some.mp hv
    rw [hc, Option.bind_some] at he
    exact Graph.evaluationOrder_reads_before h rfl he hname hm (by rw [Graph.computedAt, hmv]; exact hc')

/-- The cycles that are reported are the components of the declarations that lead back to
themselves. An order of evaluation is found just when there is one. -/
theorem cycles_are_components (d : Document) :
    (∃ components, (Graph.ofDocument d).cycles = components.map (fun c ↦ c.map (·.id)) ∧
      d.Components components) ∧
    ((∃ order, (Graph.ofDocument d).evaluationOrder = .ok order) ↔ ∃ order, d.Orders order) := by
  refine ⟨⟨d.cycles, d.graph_cycles, d.components_cycles⟩, ?_⟩
  constructor
  · rintro ⟨order, ho⟩
    exact ⟨order, orders_of_evaluationOrder ho⟩
  · rintro ⟨order, ho⟩
    refine ⟨_, Graph.evaluationOrder_eq_ok.mpr ⟨?_, rfl⟩⟩
    rw [graph_cycles, ho.cycles_eq_nil, List.map_nil]

end Document

/-- Of the two gaps the first is the one that is named, so only it is in a cycle. -/
def knotted : Document where
  auxiliaries := [{ id := "gap", name := "Gap", equation := "target - hiring" },
                  { id := "gap", name := "Gap", equation := "gap" },
                  { id := "target", name := "Target", equation := "target * 2" }]
  flows := [{ id := "hiring", name := "Hiring", equation := "gap / 2" }]

example : (Graph.ofDocument knotted).cycles = [["gap", "hiring"], ["target"]] := by
  decide +kernel

end SystemDynamics
