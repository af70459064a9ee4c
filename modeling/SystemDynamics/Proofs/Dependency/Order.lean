import SystemDynamics.Dependency.Graph
import SystemDynamics.Proofs.Dependency.Walk
import SystemDynamics.Proofs.Equation.Leaves
import Mathlib.Data.List.Range

namespace SystemDynamics

open Dependency (Graph)

theorem numbered_getElem? (kind : Kind) (ids : List String) (i : Nat) :
    (numbered kind ids)[i]? = ids[i]?.map fun id ↦ ⟨id, kind, i⟩ := by
  simp [numbered, List.getElem?_zipIdx, Option.map_map, Function.comp_def]

@[simp] theorem numbered_length (kind : Kind) (ids : List String) :
    (numbered kind ids).length = ids.length := by
  simp [numbered]

theorem numbered_map_id (kind : Kind) (ids : List String) :
    (numbered kind ids).map (·.id) = ids := by
  simp only [numbered, List.map_map, Function.comp_def]
  exact List.zipIdx_map_fst 0 ids

theorem numbered_filterMap_of_some {α : Type} {kind : Kind} (ids : List String)
    {f : Variable → Option α} {g : Nat → α} (h : ∀ id i, f ⟨id, kind, i⟩ = some (g i)) :
    (numbered kind ids).filterMap f = (List.range ids.length).map g := by
  have hg : (fun x : String × Nat ↦ f ⟨x.1, kind, x.2⟩) = fun x ↦ some ((g ∘ Prod.snd) x) :=
    funext fun x ↦ h x.1 x.2
  simp only [numbered, List.filterMap_map, Function.comp_def]
  rw [hg, List.filterMap_eq_map', List.comp_map, List.zipIdx_map_snd, List.range_eq_range']

theorem numbered_filterMap_of_none {α : Type} {kind : Kind} (ids : List String)
    {f : Variable → Option α} (h : ∀ id i, f ⟨id, kind, i⟩ = none) :
    (numbered kind ids).filterMap f = [] := by
  simp only [numbered, List.filterMap_map, List.filterMap_eq_nil_iff]
  exact fun x _ ↦ h x.1 x.2

theorem filterMap_range {α β : Type} (as : List α) (f : α → Option β) :
    (List.range as.length).filterMap (fun n ↦ as[n]?.bind f) = as.filterMap f := by
  induction as with
  | nil => rfl
  | cons a as ih =>
    rw [List.length_cons, List.range_succ_eq_map, List.filterMap_cons, List.filterMap_map,
      List.filterMap_cons, ← ih]
    rfl

namespace Document

variable (d : Document)

def idsOf : Kind → List String
  | .stock => d.stocks.map (·.id)
  | .parameter => d.parameters.map (·.id)
  | .auxiliary => d.auxiliaries.map (·.id)
  | .flow => d.flows.map (·.id)

def firstRank : Kind → Nat
  | .stock => 0
  | .parameter => d.stocks.length
  | .auxiliary => d.stocks.length + d.parameters.length
  | .flow => d.stocks.length + d.parameters.length + d.auxiliaries.length

variable {d}

theorem nodes_getElem?_eq_some {n : Nat} {v : Variable} (h : d.nodes[n]? = some v) :
    (d.idsOf v.kind)[v.index]? = some v.id ∧ n = d.firstRank v.kind + v.index := by
  simp only [nodes, List.getElem?_append, numbered_getElem?, numbered_length, List.length_append,
    List.length_map] at h
  split_ifs at h
  all_goals
    obtain ⟨id, hid, rfl⟩ := Option.map_eq_some_iff.mp h
    exact ⟨hid, by simp only [firstRank]; omega⟩

theorem nodes_getElem?_of_idsOf {kind : Kind} {i : Nat} {id : String}
    (h : (d.idsOf kind)[i]? = some id) : d.nodes[d.firstRank kind + i]? = some ⟨id, kind, i⟩ := by
  have hlt := (List.getElem?_eq_some_iff.mp h).1
  rw [nodes]
  cases kind
  all_goals simp only [idsOf, firstRank, List.length_map, Nat.zero_add] at h hlt ⊢
  case stock =>
    rw [List.getElem?_append_left (by simp; omega), List.getElem?_append_left (by simp; omega),
      List.getElem?_append_left (by simpa), numbered_getElem?, h, Option.map_some]
  case parameter =>
    rw [List.getElem?_append_left (by simp; omega), List.getElem?_append_left (by simp; omega),
      List.getElem?_append_right (by simp), numbered_getElem?]
    simp only [numbered_length, List.length_map, Nat.add_sub_cancel_left, h, Option.map_some]
  case auxiliary =>
    rw [List.getElem?_append_left (by simp; omega), List.getElem?_append_right (by simp),
      numbered_getElem?]
    simp only [List.length_append, numbered_length, List.length_map, Nat.add_sub_cancel_left, h,
      Option.map_some]
  case flow =>
    rw [List.getElem?_append_right (by simp; omega), numbered_getElem?]
    simp only [List.length_append, numbered_length, List.length_map, Nat.add_sub_cancel_left, h,
      Option.map_some]

theorem mem_nodes_ids {id : String} : id ∈ d.nodes.map (·.id) ↔ id ∈ d.ids := by
  simp only [ids, declared, nodes, List.map_append, List.map_map, Function.comp_def,
    numbered_map_id, List.mem_append]
  tauto

variable (d)

def computed : List Computed :=
  (List.range d.auxiliaries.length).map .auxiliary ++ (List.range d.flows.length).map .flow

theorem nodes_filterMap : d.nodes.filterMap Variable.computed? = d.computed := by
  rw [nodes, List.filterMap_append, List.filterMap_append, List.filterMap_append,
    numbered_filterMap_of_none _ fun _ _ ↦ rfl, numbered_filterMap_of_none _ fun _ _ ↦ rfl,
    numbered_filterMap_of_some (g := .auxiliary) _ fun _ _ ↦ rfl,
    numbered_filterMap_of_some (g := .flow) _ fun _ _ ↦ rfl]
  simp [computed]

variable {d}

theorem mem_computed_iff {c : Computed} : c ∈ d.computed ↔ (d.equation? c).isSome := by
  cases c <;> simp [computed, equation?]

theorem mem_computed_of_equation {c : Computed} {e : String × String}
    (he : d.equation? c = some e) : c ∈ d.computed :=
  mem_computed_iff.mpr (by simp [he])

theorem mem_equations_iff {e : String × String} :
    e ∈ d.equations ↔ ∃ c ∈ d.computed, d.equation? c = some e := by
  simp only [equations, computed, List.mem_append, List.mem_map, List.mem_range]
  constructor
  · rintro (⟨f, hf, rfl⟩ | ⟨a, ha, rfl⟩)
    · obtain ⟨i, hi, rfl⟩ := List.getElem_of_mem hf
      exact ⟨.flow i, .inr ⟨i, hi, rfl⟩, by simp [equation?, hi]⟩
    · obtain ⟨i, hi, rfl⟩ := List.getElem_of_mem ha
      exact ⟨.auxiliary i, .inl ⟨i, hi, rfl⟩, by simp [equation?, hi]⟩
  · rintro ⟨c, ⟨i, hi, rfl⟩ | ⟨i, hi, rfl⟩, he⟩
    · right
      simp only [equation?, List.getElem?_eq_getElem hi, Option.map_some, Option.some.injEq] at he
      exact ⟨_, List.getElem_mem hi, he⟩
    · left
      simp only [equation?, List.getElem?_eq_getElem hi, Option.map_some, Option.some.injEq] at he
      exact ⟨_, List.getElem_mem hi, he⟩

theorem mem_equations_of_equation {c : Computed} {e : String × String}
    (he : d.equation? c = some e) : e ∈ d.equations :=
  mem_equations_iff.mpr ⟨c, mem_computed_of_equation he, he⟩

theorem equation?_id {n : Nat} {v : Variable} {c : Computed} {e : String × String}
    (hv : d.nodes[n]? = some v) (hc : v.computed? = some c) (he : d.equation? c = some e) :
    e.1 = v.id := by
  obtain ⟨id, kind, i⟩ := v
  have hid := (nodes_getElem?_eq_some hv).1
  cases kind <;> simp only [Variable.computed?, Option.some.injEq, reduceCtorEq] at hc <;> subst hc
  all_goals
    simp only [equation?, Option.map_eq_some_iff, idsOf, List.getElem?_map] at he hid
    obtain ⟨a, ha, rfl⟩ := he
    obtain ⟨b, hb, rfl⟩ := hid
    obtain rfl := Option.some.inj (ha.symm.trans hb)
    rfl

theorem exists_node {c : Computed} (hc : c ∈ d.computed) :
    ∃ (n : Nat) (v : Variable), d.nodes[n]? = some v ∧ v.computed? = some c := by
  rw [← nodes_filterMap, List.mem_filterMap] at hc
  obtain ⟨v, hv, hc⟩ := hc
  obtain ⟨n, hn⟩ := List.getElem?_of_mem hv
  exact ⟨n, v, hn, hc⟩

end Document

namespace Dependency.Graph

variable {d : Document}

def computedAt (d : Document) (n : Nat) : Option Computed :=
  d.nodes[n]?.bind Variable.computed?

theorem mem_readsOf_iff {n m : Nat} :
    m ∈ (Graph.ofDocument d).readsOf n ↔
      ∃ e, (computedAt d n).bind d.equation? = some e ∧
        ∃ name ∈ namesIn e.2, rankIn d.nodes name = some m := by
  have hlt : ∀ name, rankIn d.nodes name = some m → m < d.nodes.length := by
    intro name h
    exact (List.findIdx?_eq_some_iff_getElem.mp h).1
  simp only [readsOf, ofDocument, List.getElem?_map, computedAt]
  cases hn : d.nodes[n]? with
  | none => simp
  | some v =>
    simp only [Option.map_some, Option.bind_some, Option.getD_some]
    cases he : v.computed?.bind d.equation? with
    | none => simp
    | some e =>
      simp only [List.mem_filter, List.mem_range, List.contains_iff_mem, List.mem_filterMap,
        Option.some.injEq, exists_eq_left']
      exact ⟨fun h ↦ h.2, fun h ↦ ⟨by obtain ⟨name, -, hr⟩ := h; exact hlt name hr, h⟩⟩

theorem bounded (d : Document) :
    Bounded (Graph.ofDocument d).readsOf (Graph.ofDocument d).count := by
  intro n m h
  obtain ⟨e, he, name, -, hr⟩ := mem_readsOf_iff.mp h
  obtain ⟨c, hc, -⟩ := Option.bind_eq_some_iff.mp he
  obtain ⟨v, hv, -⟩ := Option.bind_eq_some_iff.mp hc
  exact ⟨(List.getElem?_eq_some_iff.mp hv).1, (List.findIdx?_eq_some_iff_getElem.mp hr).1⟩

theorem evaluationOrder_eq_ok {order : List Computed} :
    (Graph.ofDocument d).evaluationOrder = .ok order ↔
      (Graph.ofDocument d).cycles = [] ∧
        (walkAll (Graph.ofDocument d).readsOf (Graph.ofDocument d).count).filterMap
          (computedAt d) = order := by
  rw [evaluationOrder]
  split
  case h_1 h =>
    rw [Except.ok.injEq]
    exact (and_iff_right h).symm
  case h_2 h => exact ⟨fun e ↦ by simp at e, fun e ↦ absurd e.1 h⟩

theorem acyclic (h : (Graph.ofDocument d).cycles = []) :
    Acyclic (Graph.ofDocument d).readsOf :=
  acyclic_of_cycles_eq_nil (bounded d) (List.map_eq_nil_iff.mp h)

theorem range_filterMap (d : Document) :
    (List.range d.nodes.length).filterMap (computedAt d) = d.computed := by
  rw [← d.nodes_filterMap]
  exact filterMap_range d.nodes Variable.computed?

theorem evaluationOrder_perm {order : List Computed}
    (h : (Graph.ofDocument d).evaluationOrder = .ok order) : order.Perm d.computed := by
  obtain ⟨-, rfl⟩ := evaluationOrder_eq_ok.mp h
  rw [← range_filterMap]
  exact (walkAll_perm (bounded d)).filterMap _

/-- What an equation names and is computed comes before its owner in an order of evaluation. -/
theorem evaluationOrder_reads_before {order before after : List Computed} {c c' : Computed}
    {e : String × String} {name : String} {m : Nat}
    (h : (Graph.ofDocument d).evaluationOrder = .ok order) (hc : order = before ++ c :: after)
    (he : d.equation? c = some e) (hname : name ∈ namesIn e.2)
    (hr : rankIn d.nodes name = some m) (hc' : computedAt d m = some c') : c' ∈ before := by
  obtain ⟨hcycles, rfl⟩ := evaluationOrder_eq_ok.mp h
  obtain ⟨walked, rest, hwalk, hbefore, hrest⟩ := List.filterMap_eq_append_iff.mp hc
  obtain ⟨skipped, n, later, rfl, hskipped, hn, -⟩ := List.filterMap_eq_cons_iff.mp hrest
  have hm : m ∈ (Graph.ofDocument d).readsOf n :=
    mem_readsOf_iff.mpr ⟨e, by rw [hn]; exact he, name, hname, hr⟩
  rw [← List.append_assoc] at hwalk
  rcases List.mem_append.mp
    (walkAll_reads_before (bounded d) (acyclic hcycles) hwalk hm) with hm | hm
  · exact hbefore ▸ List.mem_filterMap.mpr ⟨m, hm, hc'⟩
  · simp [hskipped m hm] at hc'

end Dependency.Graph

end SystemDynamics
