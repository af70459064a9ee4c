import SystemDynamics.Validation.Violation
import SystemDynamics.Proofs.Dependency.Order

namespace SystemDynamics

open Dependency (Graph)
open Dependency.Graph (rankIn computedAt)
open Equation (Term)

namespace Layout

/-- The slots of the time, the stocks and the parameters. -/
def IsGiven (l : Layout) (slot : Nat) : Prop :=
  slot = 0 ∨ (firstStock ≤ slot ∧ slot < l.firstParameter) ∨
    (l.firstParameter ≤ slot ∧ slot < l.firstAuxiliary)

theorem isGiven_iff {l : Layout} {slot : Nat} : l.IsGiven slot ↔ slot < l.firstAuxiliary := by
  simp only [IsGiven, firstStock, firstAuxiliary, firstParameter]
  omega

theorem size_eq (l : Layout) : l.size = l.firstFlow + l.flows.length := by
  simp only [size, names, firstFlow, firstAuxiliary, firstParameter, firstStock, List.length_cons,
    List.length_append]
  omega

structure IsSection (l : Layout) (ids : List String) (first last : Nat) : Prop where
  names : ∃ before after, l.names = before ++ (ids ++ after) ∧ first = before.length
  last : last = first + ids.length

theorem isSection_stocks (l : Layout) : l.IsSection l.stocks firstStock l.firstParameter where
  names := ⟨["time"], l.parameters ++ l.auxiliaries ++ l.flows, by simp [Layout.names], rfl⟩
  last := rfl

theorem isSection_auxiliaries (l : Layout) :
    l.IsSection l.auxiliaries l.firstAuxiliary l.firstFlow where
  names := by
    refine ⟨"time" :: l.stocks ++ l.parameters, l.flows, by simp [Layout.names], ?_⟩
    simp only [firstAuxiliary, firstParameter, firstStock, List.length_append, List.length_cons]
    omega
  last := rfl

theorem isSection_flows (l : Layout) : l.IsSection l.flows l.firstFlow l.size where
  names := by
    refine ⟨"time" :: l.stocks ++ l.parameters ++ l.auxiliaries, [], by simp [Layout.names], ?_⟩
    simp only [firstFlow, firstAuxiliary, firstParameter, firstStock, List.length_append,
      List.length_cons]
    omega
  last := l.size_eq

theorem IsSection.getElem?_names {l : Layout} {ids : List String} {first last : Nat}
    (h : l.IsSection ids first last) {i : Nat} (hi : i < ids.length) :
    l.names[first + i]? = ids[i]? := by
  obtain ⟨before, after, hnames, rfl⟩ := h.names
  rw [hnames, List.getElem?_append_right (Nat.le_add_right _ _), Nat.add_sub_cancel_left,
    List.getElem?_append_left hi]

variable {d : Document}

theorem names_ofDocument (d : Document) :
    (ofDocument d).names = "time" :: d.nodes.map (·.id) := by
  simp [names, ofDocument, Document.nodes, numbered_map_id]

theorem slot?_eq {name : String} (ht : name ≠ "t") (htime : name ≠ "time") :
    (ofDocument d).slot? name = (rankIn d.nodes name).map (· + 1) := by
  rw [slot?, if_neg ht, names_ofDocument, List.findIdx?_cons, if_neg (by simpa using htime.symm),
    List.findIdx?_map]
  rfl

theorem slot?_cases {name : String} {slot : Nat} (h : (ofDocument d).slot? name = some slot) :
    (name ∈ Validation.timeNames ∧ slot = 0) ∨
      ∃ (m : Nat) (v : Variable), rankIn d.nodes name = some m ∧ d.nodes[m]? = some v ∧
        v.id = name ∧ slot = m + 1 := by
  by_cases htime : name = "t" ∨ name = "time"
  · left
    rcases htime with rfl | rfl
    · exact ⟨by decide, by simpa [slot?] using h.symm⟩
    · exact ⟨by decide, by simpa [slot?, names, List.findIdx?_cons] using h.symm⟩
  · right
    rw [not_or] at htime
    rw [slot?_eq htime.1 htime.2] at h
    obtain ⟨m, hm, rfl⟩ := Option.map_eq_some_iff.mp h
    obtain ⟨hlt, hid, -⟩ := List.findIdx?_eq_some_iff_getElem.mp hm
    exact ⟨m, _, hm, List.getElem?_eq_getElem hlt, by simpa using hid, rfl⟩

theorem slot_of_computedAt {c : Computed} {m : Nat} (h : computedAt d m = some c) :
    (ofDocument d).slot c = m + 1 := by
  obtain ⟨⟨id, kind, i⟩, hv, hc⟩ := Option.bind_eq_some_iff.mp h
  have hm := (Document.nodes_getElem?_eq_some hv).2
  cases kind <;> simp only [Variable.computed?, Option.some.injEq, reduceCtorEq] at hc <;> subst hc
  all_goals
    simp only [Document.firstRank] at hm
    simp only [slot, firstFlow, firstAuxiliary, firstParameter, firstStock, ofDocument,
      List.length_map]
    omega

theorem slot_of_node {v : Variable} {c : Computed} {m : Nat}
    (hv : d.nodes[m]? = some v) (hc : v.computed? = some c) : (ofDocument d).slot c = m + 1 :=
  slot_of_computedAt (Option.bind_eq_some_iff.mpr ⟨v, hv, hc⟩)

theorem isGiven_of_computedAt {m : Nat} (hm : m < d.nodes.length) (h : computedAt d m = none) :
    (ofDocument d).IsGiven (m + 1) := by
  have hv := List.getElem?_eq_getElem hm
  rw [computedAt, hv, Option.bind_some] at h
  obtain ⟨hid, hrank⟩ := Document.nodes_getElem?_eq_some hv
  have hlt := (List.getElem?_eq_some_iff.mp hid).1
  simp only [isGiven_iff, firstAuxiliary, firstParameter, firstStock, ofDocument, List.length_map]
  cases hk : d.nodes[m].kind <;>
    simp only [Variable.computed?, hk, Document.idsOf, Document.firstRank, List.length_map,
      reduceCtorEq] at h hlt hrank
  all_goals omega

end Layout

namespace Document

variable {d : Document} {c : Computed} {i : Instruction}

def resolve (d : Document) (owner name : String) : Except CompileError Nat :=
  match (Layout.ofDocument d).slot? name with
  | some slot => .ok slot
  | none => .error (.unresolvedName owner name)

theorem resolve_eq_ok {owner name : String} {slot : Nat} :
    d.resolve owner name = .ok slot ↔ (Layout.ofDocument d).slot? name = some slot := by
  rw [resolve]
  cases (Layout.ofDocument d).slot? name <;> simp

theorem compileOne_eq_ok :
    d.compileOne c = .ok i ↔ ∃ e t t', d.equation? c = some e ∧ Equation.parse e.2 = .ok t ∧
      t.rename (d.resolve e.1) = .ok t' ∧ i = ⟨c, (Layout.ofDocument d).slot c, t'⟩ := by
  rw [compileOne]
  cases d.equation? c with
  | none => simp
  | some e =>
    simp only [Option.some.injEq, Except.bind_eq_ok, Except.mapError_eq_ok, Except.pure_eq_ok]
    constructor
    · rintro ⟨t, ht, t', ht', rfl⟩
      exact ⟨e, t, t', rfl, ht, ht', rfl⟩
    · rintro ⟨e, t, t', rfl, ht, ht', rfl⟩
      exact ⟨t, ht, t', ht', rfl⟩

theorem exists_name_of_slot (h : d.compileOne c = .ok i) {s : Nat} (hs : s ∈ i.term.names) :
    ∃ e t name, d.equation? c = some e ∧ Equation.parse e.2 = .ok t ∧ name ∈ t.names ∧
      d.resolve e.1 name = .ok s := by
  obtain ⟨e, t, t', he, ht, hrename, rfl⟩ := compileOne_eq_ok.mp h
  have hmap := Term.mapM_names hrename
  obtain ⟨n, hn, rfl⟩ := List.getElem_of_mem hs
  exact ⟨e, t, t.names.get ⟨n, hmap.length_eq ▸ hn⟩, he, ht, List.get_mem _ _, hmap.get _ hn⟩

theorem compile_eq_ok {order : List Computed} {p : Program} :
    d.compile order = .ok p ↔
      p.instructions.map (·.owner) = order ∧ (∀ i ∈ p.instructions, d.compileOne i.owner = .ok i) ∧
      p.layout = Layout.ofDocument d ∧ p.initialStocks = d.stocks.map (·.initialValue.getD 0) ∧
      p.parameters = d.parameters.map (·.value.getD 0) ∧ p.inflows = wiring d (·.target) ∧
      p.outflows = wiring d (·.source) := by
  have howner : ∀ c i, d.compileOne c = .ok i → i.owner = c := by
    intro c i h
    obtain ⟨_, _, _, _, _, _, rfl⟩ := compileOne_eq_ok.mp h
    rfl
  simp only [compile, Except.bind_eq_ok, Except.mapM_eq_ok_iff_map howner,
    Except.pure_eq_ok]
  constructor
  · rintro ⟨is, ⟨rfl, his⟩, rfl⟩
    exact ⟨rfl, his, rfl, rfl, rfl, rfl, rfl⟩
  · rintro ⟨rfl, his, hl, hs, hp, hi, ho⟩
    refine ⟨p.instructions, ⟨rfl, his⟩, ?_⟩
    rw [← hl, ← hs, ← hp, ← hi, ← ho]

/-- What a name in an equation stands for: the time, or a declaration, which comes before the owner
of the equation in an order of evaluation if it is computed. -/
theorem resolve_cases {order before after : List Computed} {e : String × String}
    {t : Term String} {name : String} {slot : Nat}
    (ho : (Graph.ofDocument d).evaluationOrder = .ok order) (hc : order = before ++ c :: after)
    (he : d.equation? c = some e) (ht : Equation.parse e.2 = .ok t) (hname : name ∈ t.names)
    (hslot : d.resolve e.1 name = .ok slot) :
    (name ∈ Validation.timeNames ∧ slot = 0) ∨
      ∃ (m : Nat) (v : Variable), d.nodes[m]? = some v ∧ v.id = name ∧ slot = m + 1 ∧
        ∀ c', v.computed? = some c' → c' ∈ before := by
  rcases Layout.slot?_cases (resolve_eq_ok.mp hslot) with htime | ⟨m, v, hm, hv, hid, rfl⟩
  · exact .inl htime
  · refine .inr ⟨m, v, hv, hid, rfl, ?_⟩
    intro c' hc'
    obtain ⟨names, hnames, hsub⟩ := Equation.parse_names ht
    have hin : name ∈ namesIn e.2 := by
      rw [namesIn, hnames]
      exact hsub hname
    refine Graph.evaluationOrder_reads_before ho hc he hin hm ?_
    rw [computedAt, hv]
    exact hc'

end Document

namespace Program

theorem foldlM_execute_congr {is : List Instruction} {known : Nat → Prop} {f g : Frame}
    (hsize : f.size = g.size) (hknown : ∀ s, known s → f[s]? = g[s]?)
    (hreads : ∀ before i after, is = before ++ i :: after → ∀ s ∈ i.term.names,
      known s ∨ ∃ j ∈ before, j.slot = s)
    (hwrites : ∀ s < f.size, known s ∨ ∃ i ∈ is, i.slot = s) :
    is.foldlM execute f = is.foldlM execute g := by
  induction is generalizing known f g with
  | nil =>
    have hfg : f = g := by
      refine Array.ext_getElem? ?_
      intro s
      by_cases hs : s < f.size
      · exact hknown s (by simpa using hwrites s hs)
      · rw [Array.getElem?_eq_none (by omega), Array.getElem?_eq_none (by omega)]
    rw [hfg]
  | cons i is ih =>
    have heval : i.term.eval spellSlot (f[·]?) = i.term.eval spellSlot (g[·]?) := by
      refine i.term.eval_congr spellSlot fun s hs ↦ hknown s ?_
      simpa using hreads [] i is rfl s hs
    rw [List.foldlM_cons, List.foldlM_cons, execute, execute, heval]
    cases i.term.eval spellSlot (g[·]?) with
    | error fault => rfl
    | ok x =>
      -- The slot of the first instruction joins what is known.
      have hjoin : ∀ {s : Nat} {before : List Instruction},
          (known s ∨ ∃ j ∈ i :: before, j.slot = s) →
            (known s ∨ s = i.slot) ∨ ∃ j ∈ before, j.slot = s := by
        rintro s before (h | ⟨j, hj, rfl⟩)
        · exact .inl (.inl h)
        · rcases List.mem_cons.mp hj with rfl | hj
          · exact .inl (.inr rfl)
          · exact .inr ⟨j, hj, rfl⟩
      refine @ih (fun s ↦ known s ∨ s = i.slot) _ _ (by simpa using hsize) ?_ ?_ ?_
      · intro s hs
        rw [Array.getElem?_setIfInBounds, Array.getElem?_setIfInBounds, hsize]
        split
        case isTrue => rfl
        case isFalse hne => exact hknown s (hs.resolve_right fun he ↦ hne he.symm)
      · intro before j after he s hs
        exact hjoin (hreads (i :: before) j after (by rw [he]; rfl) s hs)
      · intro s hs
        exact hjoin (hwrites s (by simpa using hs))

variable {d : Document} {order : List Computed} {p : Program}

/-- The instructions of a program in an order of evaluation read nothing that is still to be
written. -/
theorem reads_before (ho : (Graph.ofDocument d).evaluationOrder = .ok order)
    (hp : d.compile order = .ok p) {before after : List Instruction} {i : Instruction}
    (hi : p.instructions = before ++ i :: after) {s : Nat} (hs : s ∈ i.term.names) :
    p.layout.IsGiven s ∨ ∃ j ∈ before, j.slot = s := by
  obtain ⟨howners, hone, hlayout, -⟩ := Document.compile_eq_ok.mp hp
  obtain ⟨e, t, name, he, ht, hname, hslot⟩ :=
    Document.exists_name_of_slot (hone i (by simp [hi])) hs
  have horder : order = before.map (·.owner) ++ i.owner :: after.map (·.owner) := by
    rw [← howners, hi, List.map_append, List.map_cons]
  rw [hlayout]
  rcases Document.resolve_cases ho horder he ht hname hslot with
    ⟨-, rfl⟩ | ⟨m, v, hv, -, rfl, hbefore⟩
  · exact .inl (.inl rfl)
  · have hm := (List.getElem?_eq_some_iff.mp hv).1
    cases hc : v.computed? with
    | none => exact .inl (Layout.isGiven_of_computedAt hm (by rw [computedAt, hv]; exact hc))
    | some c =>
      obtain ⟨j, hj, rfl⟩ := List.mem_map.mp (hbefore c hc)
      obtain ⟨_, _, _, _, _, _, hj'⟩ := Document.compileOne_eq_ok.mp (hone j (by simp [hi, hj]))
      exact .inr ⟨j, hj, by rw [hj', Layout.slot_of_node hv hc]⟩

theorem writes_rest (ho : (Graph.ofDocument d).evaluationOrder = .ok order)
    (hp : d.compile order = .ok p) {s : Nat} (hs : s < p.layout.size) :
    p.layout.IsGiven s ∨ ∃ i ∈ p.instructions, i.slot = s := by
  obtain ⟨howners, hone, hlayout, -⟩ := Document.compile_eq_ok.mp hp
  rw [hlayout] at hs ⊢
  by_cases hgiven : (Layout.ofDocument d).IsGiven s
  · exact .inl hgiven
  right
  obtain ⟨c, hc, hslot⟩ : ∃ c ∈ d.computed, (Layout.ofDocument d).slot c = s := by
    rw [Layout.isGiven_iff] at hgiven
    rw [Layout.size_eq] at hs
    by_cases hflow : s < (Layout.ofDocument d).firstFlow
    · refine ⟨.auxiliary (s - (Layout.ofDocument d).firstAuxiliary), ?_, ?_⟩
      · simp only [Layout.firstFlow, Layout.ofDocument, List.length_map] at hflow hgiven ⊢
        simp only [Document.computed, List.mem_append, List.mem_map, List.mem_range]
        exact .inl ⟨_, by omega, rfl⟩
      · simp only [Layout.slot]
        omega
    · refine ⟨.flow (s - (Layout.ofDocument d).firstFlow), ?_, ?_⟩
      · simp only [Layout.ofDocument, List.length_map] at hs hflow ⊢
        simp only [Document.computed, List.mem_append, List.mem_map, List.mem_range]
        exact .inr ⟨_, by omega, rfl⟩
      · simp only [Layout.slot]
        omega
  have hmem := (Graph.evaluationOrder_perm ho).symm.subset hc
  rw [← howners] at hmem
  obtain ⟨i, hi, rfl⟩ := List.mem_map.mp hmem
  obtain ⟨_, _, _, _, _, _, hi'⟩ := Document.compileOne_eq_ok.mp (hone i hi)
  exact ⟨i, hi, by rw [hi', hslot]⟩

end Program

/-- An order of evaluation lists every auxiliary and every flow once. In the program compiled in
that order, the slots that an instruction reads hold the time, a stock, a parameter, or what an
earlier instruction wrote; so the program does the same to all frames that agree on the time, the
stocks and the parameters, whatever they hold in the computed slots. -/
theorem evaluationOrder_settles_slots (d : Document) (order : List Computed)
    (ho : (Graph.ofDocument d).evaluationOrder = .ok order) :
    order.Perm d.computed ∧
    ∀ p, d.compile order = .ok p →
      (∀ before i after, p.instructions = before ++ i :: after → ∀ s ∈ i.term.names,
        p.layout.IsGiven s ∨ ∃ j ∈ before, j.slot = s) ∧
      ∀ f g : Frame, f.size = p.layout.size → g.size = p.layout.size →
        (∀ s, p.layout.IsGiven s → f[s]? = g[s]?) → p.run f = p.run g := by
  refine ⟨Graph.evaluationOrder_perm ho, fun p hp ↦ ⟨?_, ?_⟩⟩
  · intro before i after hi s hs
    exact Program.reads_before ho hp hi hs
  · intro f g hf hg hgiven
    refine Program.foldlM_execute_congr (hf.trans hg.symm) hgiven ?_ ?_
    · intro before i after hi s hs
      exact Program.reads_before ho hp hi hs
    · intro s hs
      exact Program.writes_rest ho hp (hf ▸ hs)

/-- Ids that are repeated, or those of the time and of a function, and equations that name what is
declared after them. -/
def tangled : Document where
  stocks := [{ id := "a" }, { id := "t" }]
  parameters := [{ id := "time" }, { id := "a" }]
  auxiliaries := [{ id := "min", equation := "b + t" }, { id := "b", equation := "a + time" }]
  flows := [{ id := "b", equation := "min * b" }]

theorem evaluationOrder_settles_slots_tangled :
    (Graph.ofDocument tangled).evaluationOrder = .ok [.auxiliary 1, .auxiliary 0, .flow 0] ∧
    ∃ p, tangled.compile [.auxiliary 1, .auxiliary 0, .flow 0] = .ok p ∧
      p.run #[2, 1, 0, 3, 4, 0, 0, 0] = p.run #[2, 1, 0, 3, 4, 5, 6, 7] := by
  have ho : (Graph.ofDocument tangled).evaluationOrder =
      .ok [.auxiliary 1, .auxiliary 0, .flow 0] := by rfl
  have hs := evaluationOrder_settles_slots tangled _ ho
  obtain ⟨p, hp⟩ : ∃ p, tangled.compile [.auxiliary 1, .auxiliary 0, .flow 0] = .ok p :=
    Except.toBool_eq_true.mp (by decide +kernel)
  have hl : p.layout = Layout.ofDocument tangled := (Document.compile_eq_ok.mp hp).2.2.1
  refine ⟨ho, p, hp, (hs.2 p hp).2 _ _ ?_ ?_ ?_⟩
  · rw [hl]
    rfl
  · rw [hl]
    rfl
  · rw [hl]
    intro s hs
    have hlt : s < 5 := Layout.isGiven_iff.mp hs
    match s, hlt with
    | 0, _ | 1, _ | 2, _ | 3, _ | 4, _ => rfl

end SystemDynamics
