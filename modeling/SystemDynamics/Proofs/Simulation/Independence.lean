import SystemDynamics.Proofs.Simulation.Reading

namespace SystemDynamics

open Dependency (Graph Leads)
open Relation (ReflTransGen)

/-- What an evaluation starts from. -/
structure Inputs where
  time : Float
  stocks : List Float
  parameters : List Float

namespace Inputs

variable (l : Layout)

structure Fits (s : Inputs) : Prop where
  stocks : s.stocks.length = l.stocks.length
  parameters : s.parameters.length = l.parameters.length

/-- Inputs that differ in the value of one declaration at most. -/
structure SameBut (id : String) (s s' : Inputs) : Prop where
  time : s'.time = s.time
  stocks : ∀ i : Nat, l.stocks[i]? ≠ some id → s'.stocks[i]? = s.stocks[i]?
  parameters : ∀ j : Nat, l.parameters[j]? ≠ some id → s'.parameters[j]? = s.parameters[j]?

structure AreIn (f : Frame) (s : Inputs) : Prop where
  size : f.size = l.size
  parameters : ∀ j < l.parameters.length, f[l.firstParameter + j]? = s.parameters[j]?

namespace AreIn

variable {l : Layout} {f : Frame} {s : Inputs} (hf : s.AreIn l f)

include hf

theorem load_time : (Program.load f s.time s.stocks)[0]? = some s.time := by
  have hsize : 0 < f.size := by
    rw [hf.size, Layout.size_eq, Layout.firstFlow, Layout.firstAuxiliary, Layout.firstParameter,
      Layout.firstStock]
    omega
  rw [Program.getElem?_load, if_pos ⟨Nat.succ_pos _, hsize⟩]
  rfl

variable (hs : s.Fits l)

include hs

theorem load_stock {i : Nat} (hi : i < l.stocks.length) :
    (Program.load f s.time s.stocks)[Layout.firstStock + i]? = s.stocks[i]? := by
  have hsize : i + 1 < s.stocks.length + 1 ∧ i + 1 < f.size := by
    rw [hs.stocks, hf.size, Layout.size_eq, Layout.firstFlow, Layout.firstAuxiliary,
      Layout.firstParameter, Layout.firstStock]
    omega
  rw [Layout.firstStock, Nat.add_comm 1 i, Program.getElem?_load, if_pos hsize,
    List.getElem?_cons_succ]

theorem load_parameter {j : Nat} (hj : j < l.parameters.length) :
    (Program.load f s.time s.stocks)[l.firstParameter + j]? = s.parameters[j]? := by
  have hpast : ¬ (l.firstParameter + j < s.stocks.length + 1 ∧ l.firstParameter + j < f.size) := by
    rw [hs.stocks, Layout.firstParameter, Layout.firstStock]
    omega
  rw [Program.getElem?_load, if_neg hpast, hf.parameters j hj]

end AreIn

end Inputs

namespace Program

/-- Frames of one size that are the same in the slots that are settled and not apart. -/
structure AgreeOff (settled apart : Nat → Prop) (f f' : Frame) : Prop where
  size : f'.size = f.size
  slot : ∀ s, settled s → ¬ apart s → f'[s]? = f[s]?

variable {settled apart : Nat → Prop} {f f' g g' : Frame}

theorem execute_eq_ok {i : Instruction} :
    execute f i = .ok g ↔
      ∃ x, i.term.eval spellSlot (f[·]?) = .ok x ∧ f.setIfInBounds i.slot x = g := by
  rw [execute]
  cases i.term.eval spellSlot (f[·]?) <;> simp

theorem size_of_foldlM_execute {is : List Instruction}
    (hg : is.foldlM execute f = .ok g) : g.size = f.size := by
  induction is generalizing f with
  | nil =>
    obtain rfl := Except.pure_eq_ok.mp hg
    rfl
  | cons i is ih =>
    rw [List.foldlM_cons, Except.bind_eq_ok] at hg
    obtain ⟨f₁, hf₁, hg⟩ := hg
    obtain ⟨x, -, rfl⟩ := execute_eq_ok.mp hf₁
    rw [ih hg, Array.size_setIfInBounds]

theorem AgreeOff.execute (h : AgreeOff settled apart f f') {i : Instruction}
    (hreads : ¬ apart i.slot → ∀ s ∈ i.term.names, settled s ∧ ¬ apart s)
    (hg : execute f i = .ok g) (hg' : execute f' i = .ok g') :
    AgreeOff (fun s ↦ settled s ∨ s = i.slot) apart g g' := by
  obtain ⟨x, hx, rfl⟩ := execute_eq_ok.mp hg
  obtain ⟨x', hx', rfl⟩ := execute_eq_ok.mp hg'
  constructor
  · simpa using h.size
  · intro s hs hapart
    rw [Array.getElem?_setIfInBounds, Array.getElem?_setIfInBounds, h.size]
    by_cases hslot : i.slot = s
    · subst hslot
      have heval : i.term.eval spellSlot (f'[·]?) = i.term.eval spellSlot (f[·]?) := by
        refine i.term.eval_congr spellSlot fun s hs ↦ ?_
        obtain ⟨hsettled, hoff⟩ := hreads hapart s hs
        exact h.slot s hsettled hoff
      rw [hx, hx'] at heval
      rw [Except.ok.inj heval, if_pos rfl, if_pos rfl]
    · rw [if_neg hslot, if_neg hslot]
      exact h.slot s (hs.resolve_right fun he ↦ hslot he.symm) hapart

/-- Frames that agree off some slots still do so after instructions, if those that write a slot off
them read only slots off them. -/
theorem AgreeOff.run {is : List Instruction} (h : AgreeOff settled apart f f')
    (hreads : ∀ before i after, is = before ++ i :: after → ∀ s ∈ i.term.names,
      settled s ∨ ∃ j ∈ before, j.slot = s)
    (hoff : ∀ i ∈ is, ¬ apart i.slot → ∀ s ∈ i.term.names, ¬ apart s)
    (hg : is.foldlM Program.execute f = .ok g) (hg' : is.foldlM Program.execute f' = .ok g') :
    AgreeOff (fun s ↦ settled s ∨ ∃ i ∈ is, i.slot = s) apart g g' := by
  induction is generalizing settled f f' with
  | nil =>
    obtain rfl := Except.pure_eq_ok.mp hg
    obtain rfl := Except.pure_eq_ok.mp hg'
    simpa using h
  | cons i is ih =>
    rw [List.foldlM_cons, Except.bind_eq_ok] at hg hg'
    obtain ⟨f₁, hf₁, hg⟩ := hg
    obtain ⟨f₁', hf₁', hg'⟩ := hg'
    rw [List.forall_mem_cons] at hoff
    -- The slot of the first instruction joins what is settled.
    have hfirst : ¬ apart i.slot → ∀ s ∈ i.term.names, settled s ∧ ¬ apart s := by
      intro hi s hs
      exact ⟨by simpa using hreads [] i is rfl s hs, hoff.1 hi s hs⟩
    have hrest := ih (h.execute hfirst hf₁ hf₁') ?_ hoff.2 hg hg'
    · refine ⟨hrest.size, fun s hs ↦ hrest.slot s ?_⟩
      simp only [List.mem_cons, exists_eq_or_imp] at hs
      tauto
    · intro before j after he s hs
      have hj := hreads (i :: before) j after (by rw [he]; rfl) s hs
      simp only [List.mem_cons, exists_eq_or_imp] at hj
      tauto

end Program

variable {d : Document}

/-- The slots of the ranks that lead to a rank, its own among them. -/
def Document.LedBy (d : Document) (r slot : Nat) : Prop :=
  ∃ n, slot = n + 1 ∧ ReflTransGen (Leads (Graph.ofDocument d).readsOf) n r

theorem Document.WellDeclared.reads_off (hw : d.WellDeclared) {r : Nat} {i : Instruction}
    (hi : d.compileOne i.owner = .ok i) (hslot : ¬ d.LedBy r i.slot) :
    ∀ s ∈ i.term.names, ¬ d.LedBy r s := by
  intro s hs hled
  obtain ⟨k, rfl, hk⟩ := hled
  obtain ⟨e, t, t', he, -, -, hi'⟩ := Document.compileOne_eq_ok.mp hi
  obtain ⟨n, v, hv, hc⟩ := Document.exists_node (Document.mem_computed_of_equation he)
  have hn : i.slot = n + 1 := by
    rw [hi', Layout.slot_of_node hv hc]
  exact hslot ⟨n, hn, .head ((hw.mem_names_iff hi hv hc).mp hs) hk⟩

theorem Document.WellDeclared.ne_of_off (hw : d.WellDeclared) {r : Nat} {u : Variable}
    (hu : d.nodes[r]? = some u) {kind : Kind} {i : Nat}
    (hoff : ¬ d.LedBy r ((Layout.ofDocument d).slotOf ⟨u.id, kind, i⟩)) :
    (d.idsOf kind)[i]? ≠ some u.id := by
  intro hid
  have hv := Document.nodes_getElem?_of_idsOf hid
  rw [Layout.slotOf_node hv, hw.rank_unique hv hu rfl] at hoff
  exact hoff ⟨r, rfl, .refl⟩

theorem Document.WellDeclared.load_agreeOff (hw : d.WellDeclared) {s s' : Inputs} {f f' : Frame}
    {r : Nat} {u : Variable} (hu : d.nodes[r]? = some u) (hs : s.Fits (Layout.ofDocument d))
    (hs' : s'.Fits (Layout.ofDocument d)) (hsame : s.SameBut (Layout.ofDocument d) u.id s')
    (hf : s.AreIn (Layout.ofDocument d) f) (hf' : s'.AreIn (Layout.ofDocument d) f') :
    Program.AgreeOff (Layout.ofDocument d).IsGiven (d.LedBy r)
      (Program.load f s.time s.stocks) (Program.load f' s'.time s'.stocks) := by
  constructor
  · rw [Program.size_load, Program.size_load, hf.size, hf'.size]
  · intro slot hgiven hoff
    rcases hgiven with rfl | ⟨hfirst, hlast⟩ | ⟨hfirst, hlast⟩
    · rw [hf.load_time, hf'.load_time, hsame.time]
    · obtain ⟨i, rfl⟩ := Nat.exists_eq_add_of_le hfirst
      have hi : i < (Layout.ofDocument d).stocks.length := Nat.lt_of_add_lt_add_left hlast
      rw [hf.load_stock hs hi, hf'.load_stock hs' hi]
      have hne : (d.idsOf .stock)[i]? ≠ some u.id := hw.ne_of_off hu hoff
      exact hsame.stocks i hne
    · obtain ⟨j, rfl⟩ := Nat.exists_eq_add_of_le hfirst
      have hj : j < (Layout.ofDocument d).parameters.length := Nat.lt_of_add_lt_add_left hlast
      rw [hf.load_parameter hs hj, hf'.load_parameter hs' hj]
      have hne : (d.idsOf .parameter)[j]? ≠ some u.id := hw.ne_of_off hu hoff
      exact hsame.parameters j hne

theorem Document.WellDeclared.off_of_independent (hw : d.WellDeclared) {c : Computed}
    {e : String × String} (he : d.equation? c = some e) {r : Nat} {u : Variable}
    (hu : d.nodes[r]? = some u) (hx : u.kind = .stock ∨ u.kind = .parameter)
    (hindependent : (Graph.ofDocument d).dependsOn e.1 u.id = false) :
    ¬ d.LedBy r ((Layout.ofDocument d).slot c) := by
  intro hled
  obtain ⟨n, hn, hleads⟩ := hled
  obtain ⟨k, v, hv, hc⟩ := Document.exists_node (Document.mem_computed_of_equation he)
  rw [Layout.slot_of_node hv hc, Nat.succ.injEq] at hn
  subst hn
  have hne : k ≠ r := by
    intro hkr
    subst hkr
    obtain rfl := Option.some.inj (hv.symm.trans hu)
    rcases hx with hx | hx <;> simp [Variable.computed?, hx] at hc
  have hlt := (List.getElem?_eq_some_iff.mp hv).1
  rw [Graph.dependsOn, Document.equation?_id hv hc he, hw.rank?_eq hv, hw.rank?_eq hu,
    Bool.and_eq_false_iff] at hindependent
  rcases hindependent with hsame | hnot
  · simp [hne] at hsame
  · have hreached := (Dependency.mem_reached_iff (Graph.bounded d) hlt).mpr hleads
    rw [← List.contains_iff_mem, hnot] at hreached
    exact absurd hreached Bool.false_ne_true

/-- An auxiliary or a flow of an accepted model that does not depend on a stock or a parameter has
the same value in every two evaluations, with whatever was in their frames, from inputs that differ
only in that stock or parameter. -/
theorem independent_value_unchanged (domain : Domain) (d : Document) (m : Model)
    (h : domain.validate d = .ok m) (c : Computed) (v equation : String)
    (hv : m.document.equation? c = some (v, equation)) (x : String)
    (hx : x ∈ m.document.idsOf .stock ∨ x ∈ m.document.idsOf .parameter)
    (hindependent : (Graph.ofDocument m.document).dependsOn v x = false) (s s' : Inputs)
    (hs : s.Fits m.program.layout) (hs' : s'.Fits m.program.layout)
    (hsame : s.SameBut m.program.layout x s') (f f' : Frame) (hf : s.AreIn m.program.layout f)
    (hf' : s'.AreIn m.program.layout f') (g g' : Frame)
    (hg : m.evaluate f s.time s.stocks = .ok g)
    (hg' : m.evaluate f' s'.time s'.stocks = .ok g') :
    ∃ value, g[m.program.layout.slot c]? = some value ∧
      g'[m.program.layout.slot c]? = some value := by
  obtain ⟨hm, -, -⟩ := Model.runs_of_validate h
  have hw := hm.wellDeclared
  obtain ⟨order, ho, hp⟩ := hm.compiled
  obtain ⟨-, hone, hlayout, -⟩ := Document.compile_eq_ok.mp hp
  have hgraph : Graph.ofDocument (domain.complete d) = Graph.ofDocument d := rfl
  rw [Domain.document_of_validate h] at hv hx hindependent
  replace hv : d.equation? c = some (v, equation) := hv
  replace hx : x ∈ d.idsOf .stock ∨ x ∈ d.idsOf .parameter := hx
  obtain ⟨r, u, hu, rfl, hkind⟩ : ∃ (r : Nat) (u : Variable), d.nodes[r]? = some u ∧ u.id = x ∧
      (u.kind = .stock ∨ u.kind = .parameter) := by
    rcases hx with hx | hx
    · obtain ⟨i, hi⟩ := List.getElem?_of_mem hx
      exact ⟨_, _, Document.nodes_getElem?_of_idsOf hi, rfl, .inl rfl⟩
    · obtain ⟨i, hi⟩ := List.getElem?_of_mem hx
      exact ⟨_, _, Document.nodes_getElem?_of_idsOf hi, rfl, .inr rfl⟩
  have hoff := hw.off_of_independent hv hu hkind (hgraph ▸ hindependent)
  rw [hlayout] at hs hs' hsame hf hf' ⊢
  rw [Model.evaluate, Except.mapError_eq_ok] at hg hg'
  have hload := hw.load_agreeOff hu hs hs' hsame hf hf'
  have hrun := hload.run (fun before i after hi s hs ↦ hlayout ▸ Program.reads_before ho hp hi hs)
    (fun i hi ↦ hw.reads_off (hone i hi)) hg hg'
  obtain ⟨i, hi, hone, -⟩ := hm.exists_instruction hv
  have hslot : i.slot = (Layout.ofDocument d).slot c := by
    obtain ⟨_, _, _, _, _, _, rfl⟩ := Document.compileOne_eq_ok.mp hone
    rfl
  have hbound : (Layout.ofDocument d).slot c < g.size := by
    obtain ⟨n, w, hw, hwc⟩ := Document.exists_node (Document.mem_computed_of_equation hv)
    have hn := (List.getElem?_eq_some_iff.mp hw).1
    rw [Program.size_of_foldlM_execute hg, Program.size_load, hf.size, Layout.size_ofDocument,
      Layout.slot_of_node hw hwc]
    omega
  exact ⟨_, Array.getElem?_eq_getElem hbound,
    (hrun.slot _ (.inr ⟨i, hi, hslot⟩) hoff).trans (Array.getElem?_eq_getElem hbound)⟩

theorem independent_value_unchanged_training :
    ∃ m g g' value, Domain.aerodin.validate training = .ok m ∧
      m.evaluate #[0, 0, 0, 2, 0, 0, 0] 0.5 [8, 4] = .ok g ∧
      m.evaluate #[9, 9, 9, 5, 9, 9, 9] 0.5 [8, 4] = .ok g' ∧
      g[4]? = some value ∧ g'[4]? = some value := by
  have hsome : ((Domain.aerodin.validate training).toOption.bind fun m ↦
      (m.evaluate #[0, 0, 0, 2, 0, 0, 0] 0.5 [8, 4]).toOption.bind fun _ ↦
        (m.evaluate #[9, 9, 9, 5, 9, 9, 9] 0.5 [8, 4]).toOption).isSome := by decide +kernel
  obtain ⟨g', hg'⟩ := Option.isSome_iff_exists.mp hsome
  obtain ⟨m, hm, hg'⟩ := Option.bind_eq_some_iff.mp hg'
  obtain ⟨g, hg, hg'⟩ := Option.bind_eq_some_iff.mp hg'
  rw [Except.toOption_eq_some] at hm hg hg'
  have hdocument := Domain.document_of_validate hm
  have hlayout : m.program.layout = Layout.ofDocument training :=
    (Model.runs_of_validate hm).1.program_eq.1
  have hunchanged := independent_value_unchanged .aerodin training m hm (.auxiliary 0)
    "workforce_gap" "total_workforce - skilled_engineers * t" (by rw [hdocument]; rfl)
    "training_time" (by rw [hdocument]; decide) (by rw [hdocument]; decide +kernel)
    ⟨0.5, [8, 4], [2]⟩ ⟨0.5, [8, 4], [5]⟩
  rw [hlayout] at hunchanged
  have hparameters : ∀ j : Nat, (Layout.ofDocument training).parameters[j]? ≠ some "training_time" →
      [(5 : Float)][j]? = [2][j]?
    | 0, h => absurd rfl h
    | _ + 1, _ => by simp
  obtain ⟨value, hvalue, hvalue'⟩ := hunchanged ⟨rfl, rfl⟩ ⟨rfl, rfl⟩
    ⟨rfl, fun _ _ ↦ rfl, hparameters⟩ _ _ ⟨rfl, by decide⟩ ⟨rfl, by decide⟩ g g' hg hg'
  exact ⟨m, g, g', value, hm, hg, hg', hvalue, hvalue'⟩

end SystemDynamics
