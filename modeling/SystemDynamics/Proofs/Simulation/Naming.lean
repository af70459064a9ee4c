import SystemDynamics.Proofs.Dependency.Order
import SystemDynamics.Proofs.Simulation.ByName
import SystemDynamics.Proofs.Validation.Acceptance

namespace SystemDynamics

open ByName (Values given?)

theorem find?_of_nodup {α : Type} {as : List α} {f : α → String} (h : (as.map f).Nodup) {a : α}
    (ha : a ∈ as) : as.find? (f · == f a) = some a := by
  induction as with
  | nil => simp at ha
  | cons b as ih =>
    rw [List.map_cons, List.nodup_cons] at h
    rcases List.mem_cons.mp ha with rfl | ha
    · simp
    · have hne : f b ≠ f a := fun he ↦ h.1 (he ▸ List.mem_map_of_mem ha)
      simpa [hne] using ih h.2 ha

theorem find?_perm {α : Type} {as as' : List α} {f : α → String} (hperm : as.Perm as')
    (h : (as.map f).Nodup) (id : String) : as.find? (f · == id) = as'.find? (f · == id) := by
  have hmem : ∀ {bs : List α}, (bs.map f).Nodup → ∀ b, bs.find? (f · == id) = some b ↔
      b ∈ bs ∧ f b = id := by
    intro bs hbs b
    constructor
    · intro hb
      exact ⟨List.mem_of_find?_eq_some hb, by simpa using List.find?_some hb⟩
    · rintro ⟨hb, rfl⟩
      exact find?_of_nodup hbs hb
  refine Option.ext fun a ↦ ?_
  rw [hmem h, hmem ((hperm.map f).nodup_iff.mp h), hperm.mem_iff]

def Parameter.settled (overrides : NameMap Float) (p : Parameter) : Float :=
  (overrides.find? p.id).getD (p.value.getD 0)

namespace Document

variable {d : Document}

theorem nodes_ids_perm (d : Document) : (d.nodes.map (·.id)).Perm d.ids := by
  simp only [ids, declared, nodes, List.map_append, List.map_map, Function.comp_def,
    numbered_map_id, List.append_assoc]
  refine List.Perm.append_left _ ?_
  rw [← List.append_assoc]
  exact List.perm_append_comm

theorem mem_ids_of_idsOf {kind : Kind} {id : String} (h : id ∈ d.idsOf kind) : id ∈ d.ids := by
  obtain ⟨i, hi⟩ := List.getElem?_of_mem h
  exact mem_nodes_ids.mp (List.mem_map_of_mem (List.mem_of_getElem? (nodes_getElem?_of_idsOf hi)))

namespace WellDeclared

variable (hw : d.WellDeclared)

include hw

theorem rank_unique {n m : Nat} {v u : Variable} (hv : d.nodes[n]? = some v)
    (hu : d.nodes[m]? = some u) (hid : v.id = u.id) : n = m := by
  have hnodup := (nodes_ids_perm d).nodup_iff.mpr hw.ids_nodup
  obtain ⟨hn, rfl⟩ := List.getElem?_eq_some_iff.mp hv
  obtain ⟨hm, rfl⟩ := List.getElem?_eq_some_iff.mp hu
  refine (@List.Nodup.getElem_inj_iff _ _ hnodup _ (by simpa) _ (by simpa)).mp ?_
  simpa using hid

theorem kind_unique {kind kind' : Kind} {id : String} (h : id ∈ d.idsOf kind)
    (h' : id ∈ d.idsOf kind') : kind = kind' := by
  obtain ⟨i, hi⟩ := List.getElem?_of_mem h
  obtain ⟨j, hj⟩ := List.getElem?_of_mem h'
  have hv := nodes_getElem?_of_idsOf hi
  have hu := nodes_getElem?_of_idsOf hj
  rw [← hw.rank_unique hv hu rfl, hv] at hu
  exact congrArg Variable.kind (Option.some.inj hu)

theorem idsOf_nodup (kind : Kind) : (d.idsOf kind).Nodup := by
  refine List.nodup_iff_injective_get.mpr ?_
  intro i j h
  have hv := nodes_getElem?_of_idsOf (List.getElem?_eq_getElem i.isLt)
  have hu := nodes_getElem?_of_idsOf (List.getElem?_eq_getElem j.isLt)
  have hrank := hw.rank_unique hv hu h
  exact Fin.ext (by omega)

theorem equations_nodup : (d.equations.map (·.1)).Nodup := by
  have hflows : d.flows.map (·.id) = d.idsOf .flow := rfl
  have hauxiliaries : d.auxiliaries.map (·.id) = d.idsOf .auxiliary := rfl
  simp only [equations, List.map_append, List.map_map, Function.comp_def, hflows, hauxiliaries]
  refine List.nodup_append'.mpr ⟨hw.idsOf_nodup _, hw.idsOf_nodup _, ?_⟩
  intro id hf ha
  exact absurd (hw.kind_unique hf ha) (by decide)

theorem not_mem_timeNames {id : String} (h : id ∈ d.ids) : id ∉ Validation.timeNames := by
  intro htime
  have hreserved := hw.unreserved id h
  simp [Validation.isReserved, htime] at hreserved

theorem stock?_eq {s : Stock} (hs : s ∈ d.stocks) : d.stock? s.id = some s :=
  find?_of_nodup (hw.idsOf_nodup .stock) hs

theorem parameter?_eq {p : Parameter} (hp : p ∈ d.parameters) : d.parameter? p.id = some p :=
  find?_of_nodup (hw.idsOf_nodup .parameter) hp

theorem stock?_eq_none {kind : Kind} {id : String} (hk : kind ≠ .stock) (h : id ∈ d.idsOf kind) :
    d.stock? id = none := by
  refine List.find?_eq_none.mpr fun s hs he ↦ hk ?_
  have hmem : id ∈ d.idsOf .stock := List.mem_map.mpr ⟨s, hs, by simpa using he⟩
  exact hw.kind_unique h hmem

theorem parameter?_eq_none {kind : Kind} {id : String} (hk : kind ≠ .parameter)
    (h : id ∈ d.idsOf kind) : d.parameter? id = none := by
  refine List.find?_eq_none.mpr fun p hp he ↦ hk ?_
  have hmem : id ∈ d.idsOf .parameter := List.mem_map.mpr ⟨p, hp, by simpa using he⟩
  exact hw.kind_unique h hmem

theorem settled_isFinite {overrides : NameMap Float} (h : overrides.values.all Float.isFinite)
    {p : Parameter} (hp : p ∈ d.parameters) : (p.settled overrides).isFinite := by
  rw [Parameter.settled]
  cases ho : overrides.find? p.id with
  | none =>
    obtain ⟨x, hx, hfinite⟩ := hw.value p hp
    rw [hx]
    exact hfinite
  | some x => exact List.all_eq_true.mp h x (NameMap.mem_values_of_find? ho)

end WellDeclared

variable (overrides : NameMap Float) (time : Float) (stocks : Values)

theorem given?_time {name : String} (h : name ∈ Validation.timeNames) :
    given? d overrides time stocks name = some time := by
  rw [given?, if_pos (by simpa using h)]

section

variable (hw : d.WellDeclared)

include hw

theorem given?_stock {s : Stock} (hs : s ∈ d.stocks) :
    given? d overrides time stocks s.id = some (stocks s.id) := by
  have hmem : s.id ∈ d.idsOf .stock := List.mem_map_of_mem hs
  rw [given?, if_neg (by simpa using hw.not_mem_timeNames (mem_ids_of_idsOf hmem)),
    hw.stock?_eq hs]
  rfl

theorem given?_parameter {p : Parameter} (hp : p ∈ d.parameters) :
    given? d overrides time stocks p.id = some (p.settled overrides) := by
  have hmem : p.id ∈ d.idsOf .parameter := List.mem_map_of_mem hp
  rw [given?, if_neg (by simpa using hw.not_mem_timeNames (mem_ids_of_idsOf hmem)),
    hw.stock?_eq_none (by decide) hmem, ByName.parameter?, hw.parameter?_eq hp]
  obtain ⟨x, hx, -⟩ := hw.value p hp
  cases ho : overrides.find? p.id <;> simp [Parameter.settled, hx, ho]

theorem given?_computed {kind : Kind} {id : String} (hs : kind ≠ .stock) (hp : kind ≠ .parameter)
    (h : id ∈ d.idsOf kind) : given? d overrides time stocks id = none := by
  rw [given?, if_neg (by simpa using hw.not_mem_timeNames (mem_ids_of_idsOf h)),
    hw.stock?_eq_none hs h, ByName.parameter?, hw.parameter?_eq_none hp h]
  rfl

end

end Document

end SystemDynamics
