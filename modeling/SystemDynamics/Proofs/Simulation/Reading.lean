import SystemDynamics.Proofs.Dependency.Reads
import SystemDynamics.Proofs.Simulation.Agreement

namespace SystemDynamics

open Dependency (Graph)
open Equation (Term)

def Layout.slotOf (l : Layout) (v : Variable) : Nat :=
  match v.kind with
  | .stock => firstStock + v.index
  | .parameter => l.firstParameter + v.index
  | .auxiliary => l.firstAuxiliary + v.index
  | .flow => l.firstFlow + v.index

theorem Equation.Term.mem_names_rename {ν μ ε : Type} {f : ν → Except ε μ} {t : Term ν}
    {t' : Term μ} (h : t.rename f = .ok t') {w : μ} :
    w ∈ t'.names ↔ ∃ v ∈ t.names, f v = .ok w := by
  have hnames := mapM_names h
  generalize t.names = vs at hnames
  generalize t'.names = ws at hnames
  induction hnames with
  | nil => simp
  | cons hvw _ ih => simp [ih, hvw, eq_comm]

variable {d : Document}

theorem Layout.slotOf_node {n : Nat} {v : Variable} (hv : d.nodes[n]? = some v) :
    (ofDocument d).slotOf v = n + 1 := by
  have hn := (Document.nodes_getElem?_eq_some hv).2
  rw [slotOf]
  cases hk : v.kind
  all_goals
    simp only [hk, Document.firstRank] at hn
    simp only [firstFlow, firstAuxiliary, firstParameter, firstStock, ofDocument, List.length_map]
    omega

theorem Dependency.Graph.readsOf_pairwise (n : Nat) :
    ((Graph.ofDocument d).readsOf n).Pairwise (· < ·) := by
  simp only [readsOf, ofDocument, List.getElem?_map]
  cases d.nodes[n]? with
  | none => simp
  | some v =>
    simp only [Option.map_some, Option.getD_some]
    split
    case h_1 => exact .nil
    case h_2 => exact List.pairwise_lt_range.filter _

namespace Document.WellDeclared

variable (hw : d.WellDeclared)

include hw

theorem slots_of_dependencies {n : Nat} {v : Variable} (hv : d.nodes[n]? = some v) :
    ((Graph.ofDocument d).dependencies v.id).map (Layout.ofDocument d).slotOf =
      ((Graph.ofDocument d).readsOf n).map (· + 1) := by
  have hbound : ∀ m ∈ (Graph.ofDocument d).readsOf n,
      ∃ u, (Graph.ofDocument d).nodes[m]? = some u := by
    intro m hm
    exact ⟨_, List.getElem?_eq_getElem (Graph.bounded d _ _ hm).2⟩
  rw [Graph.dependencies, hw.rank?_eq hv, Option.elim_some]
  generalize (Graph.ofDocument d).readsOf n = ms at hbound
  induction ms with
  | nil => rfl
  | cons m ms ih =>
    rw [List.forall_mem_cons] at hbound
    obtain ⟨u, hu⟩ := hbound.1
    rw [List.filterMap_cons_some hu, List.map_cons, List.map_cons, ih hbound.2,
      Layout.slotOf_node hu]

theorem slot?_of_rank {name : String} {m : Nat} (h : Graph.rankIn d.nodes name = some m) :
    Equation.isBuiltin name = false ∧ (Layout.ofDocument d).slot? name = some (m + 1) := by
  obtain ⟨hm, hid, -⟩ := List.findIdx?_eq_some_iff_getElem.mp h
  have hmem : name ∈ d.ids := by
    rw [← mem_nodes_ids, List.mem_map]
    exact ⟨_, List.getElem_mem hm, by simpa using hid⟩
  have hreserved := hw.unreserved name hmem
  have htime := hw.not_mem_timeNames hmem
  rw [Validation.isReserved, Bool.or_eq_false_iff] at hreserved
  simp only [Validation.timeNames, List.mem_cons, List.not_mem_nil, or_false, not_or] at htime
  refine ⟨hreserved.2, ?_⟩
  rw [Layout.slot?_eq htime.2 htime.1, h]
  rfl

theorem mem_names_iff {c : Computed} {i : Instruction} (hi : d.compileOne c = .ok i)
    {n : Nat} {v : Variable} (hv : d.nodes[n]? = some v) (hc : v.computed? = some c) {m : Nat} :
    m + 1 ∈ i.term.names ↔ m ∈ (Graph.ofDocument d).readsOf n := by
  obtain ⟨e, t, t', he, ht, hrename, rfl⟩ := Document.compileOne_eq_ok.mp hi
  have hbind : (Graph.computedAt d n).bind d.equation? = some e := by
    rw [Graph.computedAt, hv, Option.bind_some, hc]
    exact he
  have hwords : namesIn e.2 = t.words := by
    rw [namesIn, Equation.identifiers_of_parse ht]
    rfl
  simp only [Term.mem_names_rename hrename, resolve_eq_ok, Graph.mem_readsOf_iff, hbind,
    Option.some.injEq, exists_eq_left', hwords]
  constructor
  · intro h
    obtain ⟨name, hname, hslot⟩ := h
    rcases Layout.slot?_cases hslot with ⟨-, hzero⟩ | ⟨k, u, hk, -, -, hkm⟩
    · exact absurd hzero (Nat.succ_ne_zero m)
    · obtain rfl := Nat.succ.inj hkm
      refine ⟨name, ?_, hk⟩
      obtain ⟨names, hnames, hsub⟩ := Equation.parse_names ht
      rw [Equation.identifiers_of_parse ht] at hnames
      exact Except.ok.inj hnames ▸ hsub hname
  · intro h
    obtain ⟨name, hname, hrank⟩ := h
    obtain ⟨hbuiltin, hslot⟩ := hw.slot?_of_rank hrank
    refine ⟨name, ?_, hslot⟩
    refine (mem_namesIn_of_parse ht (hwords ▸ hname)).resolve_right ?_
    rw [hbuiltin]
    exact Bool.false_ne_true

end Document.WellDeclared

theorem Model.Runs.exists_instruction {m : Model} (hm : m.Runs d) {c : Computed}
    {e : String × String} (he : d.equation? c = some e) :
    ∃ i ∈ m.program.instructions, d.compileOne c = .ok i ∧
      ∀ j ∈ m.program.instructions, j.owner = c ↔ j = i := by
  obtain ⟨order, ho, hp⟩ := hm.compiled
  obtain ⟨howners, hone, -⟩ := Document.compile_eq_ok.mp hp
  have hmem : c ∈ m.program.instructions.map (·.owner) :=
    howners ▸ (Graph.evaluationOrder_perm ho).symm.subset
      (Document.mem_computed_of_equation he)
  obtain ⟨i, hi, rfl⟩ := List.mem_map.mp hmem
  refine ⟨i, hi, hone i hi, fun j hj ↦ ⟨?_, fun h ↦ h ▸ rfl⟩⟩
  intro howner
  have hj' := hone j hj
  rw [howner, hone i hi] at hj'
  exact (Except.ok.inj hj').symm

/-- The identifiers of a text are the words of the term that it parses to, in the same order. So in
an accepted model, where every computed variable has one instruction, the slots that this reads, but
for that of the time, are the slots of the dependencies of the variable. -/
theorem slots_read_are_dependencies :
    (∀ source t, Equation.parse source = .ok t → Equation.identifiers source = .ok t.words) ∧
    ∀ (domain : Domain) (d : Document) (m : Model), domain.validate d = .ok m →
      ∀ c e, m.document.equation? c = some e →
        ∃ i ∈ m.program.instructions, (∀ j ∈ m.program.instructions, j.owner = c ↔ j = i) ∧
          (((Graph.ofDocument m.document).dependencies e.1).map
            m.program.layout.slotOf).Pairwise (· < ·) ∧
          ∀ slot, slot ∈ ((Graph.ofDocument m.document).dependencies e.1).map
            m.program.layout.slotOf ↔ slot ≠ 0 ∧ slot ∈ i.term.names := by
  refine ⟨fun source t ht ↦ Equation.identifiers_of_parse ht, ?_⟩
  intro domain d m h c e he
  obtain ⟨hm, -, -⟩ := Model.runs_of_validate h
  have hw := hm.wellDeclared
  rw [Domain.document_of_validate h] at he ⊢
  replace he : d.equation? c = some e := he
  obtain ⟨i, hi, hone, hunique⟩ := hm.exists_instruction he
  obtain ⟨n, v, hv, hc⟩ := Document.exists_node (Document.mem_computed_of_equation he)
  have hgraph : Graph.ofDocument (domain.complete d) = Graph.ofDocument d := rfl
  have hslots := hw.slots_of_dependencies hv
  rw [hgraph, hm.program_eq.1, Document.equation?_id hv hc he, hslots]
  refine ⟨i, hi, hunique, ?_, ?_⟩
  · rw [List.pairwise_map]
    exact (Graph.readsOf_pairwise n).imp fun h ↦ Nat.succ_lt_succ h
  · intro slot
    cases slot with
    | zero => simp
    | succ k => simp [hw.mem_names_iff hone hv hc]

theorem slots_read_are_dependencies_training :
    ∃ m, Domain.aerodin.validate training = .ok m ∧
      Equation.identifiers "total_workforce - skilled_engineers * t" =
        .ok ["total_workforce", "skilled_engineers", "t"] ∧
      ∃ i ∈ m.program.instructions, i.owner = .auxiliary 0 ∧
        ∀ slot, slot ∈ [2, 5] ↔ slot ≠ 0 ∧ slot ∈ i.term.names := by
  obtain ⟨hwords, hslots⟩ := slots_read_are_dependencies
  obtain ⟨m, hm⟩ : ∃ m, Domain.aerodin.validate training = .ok m :=
    Except.toBool_eq_true.mp (by decide +kernel)
  have hparse : ((Equation.parse "total_workforce - skilled_engineers * t").toOption.map
      Term.words) = some ["total_workforce", "skilled_engineers", "t"] := by decide +kernel
  obtain ⟨t, ht, htwords⟩ := Option.map_eq_some_iff.mp hparse
  have hidentifiers := hwords _ t (Except.toOption_eq_some.mp ht)
  rw [htwords] at hidentifiers
  have hdocument := Domain.document_of_validate hm
  have hlayout : m.program.layout = Layout.ofDocument training :=
    (Model.runs_of_validate hm).1.program_eq.1
  obtain ⟨i, hi, howner, -, hread⟩ := hslots .aerodin training m hm (.auxiliary 0)
    ("workforce_gap", "total_workforce - skilled_engineers * t") (by rw [hdocument]; rfl)
  have hdependencies :
      ((Graph.ofDocument (Domain.aerodin.complete training)).dependencies "workforce_gap").map
        (Layout.ofDocument training).slotOf = [2, 5] := by decide +kernel
  rw [hdocument, hlayout, hdependencies] at hread
  exact ⟨m, hm, hidentifiers, i, hi, (howner i hi).mpr rfl, hread⟩

end SystemDynamics
