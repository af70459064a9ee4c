import SystemDynamics.Report.Trace
import Mathlib.Data.List.Nodup
import Mathlib.Data.List.Perm.Subperm
import Mathlib.Logic.Relation

namespace SystemDynamics.Trace

open Relation (ReflTransGen)

/-- Visits to variables at a level, without a bound on how deep they lead, from what was opened
before them to what is opened after. -/
inductive Visits (leads : Variable → List Variable) :
    (level : Nat) → List Variable → Opened → List Trace → Opened → Prop
  | nil {level : Nat} {seen : Opened} : Visits leads level [] seen [] seen
  | met {level first : Nat} {v : Variable} {vs : List Variable} {seen seen' : Opened}
    {ts : List Trace} (hmet : seen.lookup v.id = some first)
    (hrest : Visits leads level vs seen ts seen') :
    Visits leads level (v :: vs) seen (.met v first :: ts) seen'
  | opened {level : Nat} {v : Variable} {vs : List Variable} {seen within seen' : Opened}
    {children ts : List Trace} (hnew : seen.lookup v.id = none)
    (hchildren : Visits leads (level + 1) (leads v) ((v.id, level) :: seen) children within)
    (hrest : Visits leads level vs within ts seen') :
    Visits leads level (v :: vs) seen (.opened v level children :: ts) seen'

structure Sound (nodes : List Variable) (seen : Opened) : Prop where
  nodup : (seen.map (·.1)).Nodup
  known : ∀ id ∈ seen.map (·.1), id ∈ nodes.map (·.id)

structure Leading (nodes : List Variable) (leads : Variable → List Variable)
    (R : String → String → Prop) : Prop where
  closed : ∀ v ∈ nodes, ∀ u ∈ leads v, u ∈ nodes
  iff : ∀ v ∈ nodes, ∀ id, (∃ u ∈ leads v, u.id = id) ↔ R v.id id

def node : Trace → Variable
  | opened v _ _ => v
  | met v _ => v

def opening? : Trace → Option (String × Nat)
  | opened v level _ => some (v.id, level)
  | met _ _ => none

mutual

/-- A trace and all that hangs below it, with their depths, in the order of the lines. -/
def placed (depth : Nat) : Trace → List (Nat × Trace)
  | opened v level children => (depth, opened v level children) :: placedAll (depth + 1) children
  | met v level => [(depth, met v level)]

def placedAll (depth : Nat) : List Trace → List (Nat × Trace)
  | [] => []
  | t :: ts => t.placed depth ++ placedAll depth ts

end

def openings (ps : List (Nat × Trace)) : List (String × Nat) :=
  ps.filterMap (·.2.opening?)

theorem mem_placedAll_opened {depth level : Nat} {v : Variable} {children ts : List Trace}
    {p : Nat × Trace} : p ∈ placedAll depth (.opened v level children :: ts) ↔
      p = (depth, .opened v level children) ∨ p ∈ placedAll (depth + 1) children ∨
        p ∈ placedAll depth ts := by
  simp [placedAll, placed]

theorem mem_placedAll_met {depth level : Nat} {v : Variable} {ts : List Trace} {p : Nat × Trace} :
    p ∈ placedAll depth (.met v level :: ts) ↔
      p = (depth, .met v level) ∨ p ∈ placedAll depth ts := by
  simp [placedAll, placed]

theorem placedAll_singleton (depth : Nat) (t : Trace) : placedAll depth [t] = t.placed depth := by
  rw [placedAll, placedAll, List.append_nil]

theorem mem_placedAll {depth : Nat} {t : Trace} {ts : List Trace} (h : t ∈ ts) :
    (depth, t) ∈ placedAll depth ts := by
  induction ts with
  | nil => simp at h
  | cons u ts ih =>
    rw [placedAll, List.mem_append]
    rcases List.mem_cons.mp h with rfl | h
    · exact .inl (by cases t <;> simp [placed])
    · exact .inr (ih h)

theorem mem_openings {ps : List (Nat × Trace)} {id : String} {level : Nat} :
    (id, level) ∈ openings ps ↔ ∃ n v children, (n, .opened v level children) ∈ ps ∧ v.id = id := by
  rw [openings, List.mem_filterMap]
  constructor
  · rintro ⟨⟨n, t⟩, hp, ht⟩
    cases t with
    | opened v k children =>
      obtain ⟨rfl, rfl⟩ : v.id = id ∧ k = level := by simpa [opening?] using ht
      exact ⟨n, v, children, hp, rfl⟩
    | met => simp [opening?] at ht
  · rintro ⟨n, v, children, hp, rfl⟩
    exact ⟨_, hp, rfl⟩

theorem not_mem_of_lookup {seen : Opened} {id : String} (h : seen.lookup id = none) :
    id ∉ seen.map (·.1) := by
  rw [List.lookup_eq_none_iff] at h
  rw [List.mem_map]
  rintro ⟨e, he, rfl⟩
  simpa using h e he

theorem mem_of_lookup {seen : Opened} {id : String} {level : Nat}
    (h : seen.lookup id = some level) : (id, level) ∈ seen := by
  obtain ⟨before, after, rfl, -⟩ := List.lookup_eq_some_iff.mp h
  simp

variable {leads : Variable → List Variable}

namespace Visits

variable {level : Nat} {vs : List Variable} {seen seen' : Opened} {ts : List Trace}

theorem append {us : List Variable} {us' : List Trace} {seen'' : Opened}
    (h : Visits leads level vs seen ts seen') (h' : Visits leads level us seen' us' seen'') :
    Visits leads level (vs ++ us) seen (ts ++ us') seen'' := by
  induction h with
  | nil => exact h'
  | met hmet _ ih => exact .met hmet (ih h')
  | opened hnew hchildren _ _ ih => exact .opened hnew hchildren (ih h')

variable (h : Visits leads level vs seen ts seen')

include h

theorem map_node : ts.map node = vs := by
  induction h with
  | nil => rfl
  | met _ _ ih => exact congrArg _ ih
  | opened _ _ _ _ ih => exact congrArg _ ih

theorem eq_openings (depth : Nat) : seen' = (openings (placedAll depth ts)).reverse ++ seen := by
  induction h generalizing depth with
  | nil => rfl
  | met _ _ ih => exact ih depth
  | opened _ _ _ ihchildren ihrest =>
    rw [ihrest depth, ihchildren (depth + 1)]
    simp [placedAll, placed, openings, opening?]

theorem subset : seen ⊆ seen' := by
  rw [h.eq_openings 0]
  exact List.subset_append_right _ _

theorem nodup (hseen : (seen.map (·.1)).Nodup) : (seen'.map (·.1)).Nodup := by
  induction h with
  | nil => exact hseen
  | met _ _ ih => exact ih hseen
  | opened hnew _ _ ihchildren ihrest =>
    exact ihrest (ihchildren (List.nodup_cons.mpr ⟨not_mem_of_lookup hnew, hseen⟩))

theorem mem_of_met {depth n first : Nat} {v : Variable}
    (hp : (n, .met v first) ∈ placedAll depth ts) : (v.id, first) ∈ seen' := by
  induction h generalizing depth with
  | nil => simp [placedAll] at hp
  | met hmet hrest ih =>
    rcases mem_placedAll_met.mp hp with heq | hp
    · obtain ⟨-, rfl, rfl⟩ : n = depth ∧ _ ∧ _ := by simpa using heq
      exact hrest.subset (mem_of_lookup hmet)
    · exact ih hp
  | opened _ _ hrest ihchildren ihrest =>
    rcases mem_placedAll_opened.mp hp with heq | hp | hp
    · simp at heq
    · exact hrest.subset (ihchildren hp)
    · exact ihrest hp

theorem hangs {depth n k : Nat} {v : Variable} {children : List Trace}
    (hp : (n, .opened v k children) ∈ placedAll depth ts) :
    k + depth = level + n ∧ children.map node = leads v ∧
      ∀ child ∈ children, (n + 1, child) ∈ placedAll depth ts := by
  induction h generalizing depth with
  | nil => simp [placedAll] at hp
  | met _ _ ih =>
    obtain ⟨hlevel, hnode, hchildren⟩ := ih ((mem_placedAll_met.mp hp).resolve_left (by simp))
    exact ⟨hlevel, hnode, fun child hc ↦ mem_placedAll_met.mpr (.inr (hchildren child hc))⟩
  | opened _ hvisits _ ihchildren ihrest =>
    rcases mem_placedAll_opened.mp hp with heq | hp | hp
    · obtain ⟨rfl, rfl, rfl, rfl⟩ : n = depth ∧ v = _ ∧ k = _ ∧ children = _ := by simpa using heq
      refine ⟨rfl, hvisits.map_node, fun child hc ↦ ?_⟩
      exact mem_placedAll_opened.mpr (.inr (.inl (mem_placedAll hc)))
    · obtain ⟨hlevel, hnode, hchildren⟩ := ihchildren hp
      refine ⟨by omega, hnode, fun child hc ↦ ?_⟩
      exact mem_placedAll_opened.mpr (.inr (.inl (hchildren child hc)))
    · obtain ⟨hlevel, hnode, hchildren⟩ := ihrest hp
      exact ⟨hlevel, hnode, fun child hc ↦ mem_placedAll_opened.mpr (.inr (.inr (hchildren child hc)))⟩

variable {nodes : List Variable} {R : String → String → Prop} (hl : Leading nodes leads R)

include hl

theorem exists_reach {depth n : Nat} {t : Trace} (hvs : ∀ v ∈ vs, v ∈ nodes)
    (hp : (n, t) ∈ placedAll depth ts) :
    t.node ∈ nodes ∧ ∃ v ∈ vs, ReflTransGen R v.id t.node.id := by
  induction h generalizing depth with
  | nil => simp [placedAll] at hp
  | @met _ _ v vs _ _ _ _ _ ih =>
    rw [List.forall_mem_cons] at hvs
    rcases mem_placedAll_met.mp hp with heq | hp
    · obtain ⟨-, rfl⟩ := Prod.mk.inj heq
      exact ⟨hvs.1, v, List.mem_cons_self, .refl⟩
    · obtain ⟨hnode, u, hu, hreach⟩ := ih hvs.2 hp
      exact ⟨hnode, u, List.mem_cons_of_mem v hu, hreach⟩
  | @opened _ v vs _ _ _ _ _ _ _ _ ihchildren ihrest =>
    rw [List.forall_mem_cons] at hvs
    rcases mem_placedAll_opened.mp hp with heq | hp | hp
    · obtain ⟨-, rfl⟩ := Prod.mk.inj heq
      exact ⟨hvs.1, v, List.mem_cons_self, .refl⟩
    · obtain ⟨hnode, u, hu, hreach⟩ := ihchildren (hl.closed v hvs.1) hp
      have hstep : R v.id u.id := (hl.iff v hvs.1 u.id).mp ⟨u, hu, rfl⟩
      exact ⟨hnode, v, List.mem_cons_self, hreach.head hstep⟩
    · obtain ⟨hnode, u, hu, hreach⟩ := ihrest hvs.2 hp
      exact ⟨hnode, u, List.mem_cons_of_mem v hu, hreach⟩

theorem sound (hvs : ∀ v ∈ vs, v ∈ nodes) (hseen : Sound nodes seen) : Sound nodes seen' where
  nodup := h.nodup hseen.nodup
  known id hid := by
    rw [h.eq_openings 0, List.map_append, List.mem_append] at hid
    rcases hid with hid | hid
    · obtain ⟨⟨_, level⟩, hp, rfl⟩ := List.mem_map.mp hid
      obtain ⟨n, v, children, hat, rfl⟩ := mem_openings.mp (List.mem_reverse.mp hp)
      exact List.mem_map_of_mem (h.exists_reach hl hvs hat).1
    · exact hseen.known id hid

end Visits

theorem Sound.length_le {nodes : List Variable} {seen : Opened} (h : Sound nodes seen) :
    seen.length ≤ nodes.length := by
  have hle := (h.nodup.subperm h.known).length_le
  rwa [List.length_map, List.length_map] at hle

section

variable {nodes : List Variable} {R : String → String → Prop} (hl : Leading nodes leads R)

include hl

theorem exists_foldl_visits (go : Variable → Opened → Trace × Opened) {level : Nat} (bound : Nat)
    (hgo : ∀ v ∈ nodes, ∀ seen, Sound nodes seen → bound ≤ seen.length →
      Visits leads level [v] seen [(go v seen).1] (go v seen).2)
    {vs : List Variable} (hvs : ∀ v ∈ vs, v ∈ nodes) {seen : Opened} (hseen : Sound nodes seen)
    (hbound : bound ≤ seen.length) (ts : List Trace) :
    ∃ us seen', vs.foldl
        (fun (children, seen) child ↦
          let (t, seen) := go child seen
          (children ++ [t], seen))
        (ts, seen) = (ts ++ us, seen') ∧ Visits leads level vs seen us seen' := by
  induction vs generalizing seen ts with
  | nil => exact ⟨[], seen, by simp, .nil⟩
  | cons v vs ih =>
    rw [List.forall_mem_cons] at hvs
    have hv := hgo v hvs.1 seen hseen hbound
    have hsound := hv.sound hl (by simpa using hvs.1) hseen
    have hlength : seen.length ≤ (go v seen).2.length := by
      rw [hv.eq_openings 0, List.length_append]
      exact Nat.le_add_left _ _
    obtain ⟨us, seen', heq, hrest⟩ :=
      ih hvs.2 hsound (Nat.le_trans hbound hlength) (ts ++ [(go v seen).1])
    refine ⟨(go v seen).1 :: us, seen', ?_, hv.append hrest⟩
    rw [List.foldl_cons, heq, List.append_assoc, List.singleton_append]

/-- The bound on the depth is never met, as every variable on a path was opened before the next. -/
theorem visits_ofNode (depth level : Nat) {v : Variable} {seen : Opened} (hv : v ∈ nodes)
    (hseen : Sound nodes seen) (hdepth : nodes.length < depth + seen.length) :
    Visits leads level [v] seen [(ofNode leads depth level v seen).1]
      (ofNode leads depth level v seen).2 := by
  induction depth generalizing level v seen with
  | zero => exact absurd hseen.length_le (by omega)
  | succ depth ih =>
    cases hlookup : seen.lookup v.id with
    | some first =>
      rw [ofNode, hlookup]
      exact .met hlookup .nil
    | none =>
      have hsound : Sound nodes ((v.id, level) :: seen) := by
        refine ⟨List.nodup_cons.mpr ⟨not_mem_of_lookup hlookup, hseen.nodup⟩, ?_⟩
        rw [List.map_cons, List.forall_mem_cons]
        exact ⟨List.mem_map_of_mem hv, hseen.known⟩
      obtain ⟨children, within, hfold, hchildren⟩ :=
        exists_foldl_visits hl (ofNode leads depth (level + 1)) (nodes.length + 1 - depth)
          (fun u hu seen hseen hbound ↦ ih (level + 1) hu hseen (by omega)) (hl.closed v hv) hsound
          (by rw [List.length_cons]; omega) []
      rw [ofNode, hlookup]
      dsimp only at hfold ⊢
      rw [hfold, List.nil_append]
      exact .opened hlookup hchildren .nil

end

/-- What holds of a trace that starts at a variable. -/
structure Complete (R : String → String → Prop) (start : String) (t : Trace) : Prop where
  once : ((openings (t.placed 0)).map (·.1)).Nodup
  reached : ∀ id, id ∈ (openings (t.placed 0)).map (·.1) ↔ ReflTransGen R start id
  refers : ∀ n v first, (n, .met v first) ∈ t.placed 0 → (v.id, first) ∈ openings (t.placed 0)
  level : ∀ n v level children, (n, .opened v level children) ∈ t.placed 0 → level = n + 1
  hangs : ∀ n v level children, (n, .opened v level children) ∈ t.placed 0 →
    (∀ child ∈ children, (n + 1, child) ∈ t.placed 0) ∧
      ∀ id, (∃ child ∈ children, child.node.id = id) ↔ R v.id id

theorem Visits.complete {nodes : List Variable} {R : String → String → Prop}
    (hl : Leading nodes leads R) {v : Variable} (hv : v ∈ nodes) {t : Trace} {seen : Opened}
    (h : Visits leads 1 [v] [] [t] seen) : Complete R v.id t := by
  have hvs : ∀ u ∈ [v], u ∈ nodes := by simpa using hv
  have hplaced := placedAll_singleton 0 t
  have hseen : seen = (openings (t.placed 0)).reverse := by
    rw [h.eq_openings 0, hplaced, List.append_nil]
  have hnodup := h.nodup List.nodup_nil
  rw [hseen, List.map_reverse, List.nodup_reverse] at hnodup
  have hrefers : ∀ n u first, (n, .met u first) ∈ t.placed 0 →
      (u.id, first) ∈ openings (t.placed 0) := by
    intro n u first hp
    rw [← hplaced] at hp
    simpa [hseen] using h.mem_of_met hp
  have hlevel : ∀ n u level children, (n, .opened u level children) ∈ t.placed 0 →
      level = n + 1 := by
    intro n u level children hp
    have hdepth := (h.hangs (hplaced ▸ hp)).1
    omega
  have hhangs : ∀ n u level children, (n, .opened u level children) ∈ t.placed 0 →
      (∀ child ∈ children, (n + 1, child) ∈ t.placed 0) ∧
        ∀ id, (∃ child ∈ children, child.node.id = id) ↔ R u.id id := by
    intro n u level children hp
    rw [← hplaced] at hp ⊢
    obtain ⟨-, hnodes, hchildren⟩ := h.hangs hp
    refine ⟨hchildren, fun id ↦ ?_⟩
    rw [← hl.iff u (h.exists_reach hl hvs hp).1 id, ← hnodes]
    simp
  have hopened : ∀ p ∈ t.placed 0, p.2.node.id ∈ (openings (t.placed 0)).map (·.1) := by
    intro p hp
    obtain ⟨n, u⟩ := p
    cases u with
    | opened u level children =>
      exact List.mem_map_of_mem (mem_openings.mpr ⟨n, u, children, hp, rfl⟩)
    | met u first => exact List.mem_map_of_mem (hrefers n u first hp)
  refine ⟨hnodup, fun id ↦ ⟨?_, ?_⟩, hrefers, hlevel, hhangs⟩
  · intro hid
    obtain ⟨⟨_, level⟩, hp, rfl⟩ := List.mem_map.mp hid
    obtain ⟨n, u, children, hat, rfl⟩ := mem_openings.mp hp
    obtain ⟨-, w, hw, hreach⟩ := h.exists_reach hl hvs (hplaced ▸ hat)
    obtain rfl := List.mem_singleton.mp hw
    exact hreach
  · intro hreach
    induction hreach with
    | refl =>
      obtain rfl : t.node = v := List.singleton_inj.mp h.map_node
      exact hopened (0, t) (hplaced ▸ mem_placedAll List.mem_cons_self)
    | tail _ hstep ih =>
      obtain ⟨⟨_, level⟩, hp, rfl⟩ := List.mem_map.mp ih
      obtain ⟨n, u, children, hat, rfl⟩ := mem_openings.mp hp
      obtain ⟨hchildren, hleads⟩ := hhangs n u level children hat
      obtain ⟨child, hchild, rfl⟩ := (hleads _).mpr hstep
      exact hopened (n + 1, child) (hchildren child hchild)

end SystemDynamics.Trace
