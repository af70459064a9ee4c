import SystemDynamics.Proofs.Equation.Renaming
import SystemDynamics.Proofs.Simulation.Frame

namespace SystemDynamics

open ByName (Values settle)
open Dependency (Graph)
open Equation (Fault Term)

variable {d : Document} {given : String → Option Float}

def Document.valueOf (d : Document) (given : String → Option Float) (depth : Nat) (c : Computed) :
    Option Float :=
  (d.equation? c).bind fun e ↦ ByName.computed? d given depth e.1

def Layout.spell (l : Layout) (name : String) : String :=
  (l.slot? name).elim name spellSlot

section

variable {order : List Computed} {p : Program} {f : Frame}

theorem getElem?_of_resolve (hf : f.Holds d given) (hgiven : ∀ e ∈ d.equations, given e.1 = none)
    (ho : (Graph.ofDocument d).evaluationOrder = .ok order) {before after : List Computed}
    {c : Computed} (hc : order = before ++ c :: after) {depth : Nat}
    (hbefore : ∀ c' ∈ before, f[(Layout.ofDocument d).slot c']? = d.valueOf given depth c')
    {e : String × String} (he : d.equation? c = some e) {t : Term String}
    (ht : Equation.parse e.2 = .ok t) {name : String} (hname : name ∈ t.names) {slot : Nat}
    (hslot : d.resolve e.1 name = .ok slot) :
    f[slot]? = (given name <|> ByName.computed? d given depth name) := by
  rcases Document.resolve_cases ho hc he ht hname hslot with
    ⟨htime, rfl⟩ | ⟨m, v, hv, rfl, rfl, hcomputed⟩
  · obtain ⟨x, hx⟩ := hf.isSome 0 (by omega)
    rw [← hf.time name htime, hx]
    rfl
  · have hm := (List.getElem?_eq_some_iff.mp hv).1
    cases hvc : v.computed? with
    | none =>
      obtain ⟨x, hx⟩ := hf.isSome (m + 1) (by omega)
      rw [← hf.declared m v hv hvc, hx]
      rfl
    | some c' =>
      have hmem := hcomputed c' hvc
      have hc' : c' ∈ d.computed :=
        (Graph.evaluationOrder_perm ho).subset (hc ▸ List.mem_append_left _ hmem)
      obtain ⟨e', he'⟩ := Option.isSome_iff_exists.mp (Document.mem_computed_iff.mp hc')
      have hid := Document.equation?_id hv hvc he'
      have hnone : given v.id = none :=
        hid ▸ hgiven e' (Document.mem_equations_iff.mpr ⟨c', hc', he'⟩)
      rw [← Layout.slot_of_node hv hvc, hbefore c' hmem, Document.valueOf, he',
        Option.bind_some, hid, hnone]
      rfl

theorem slot_injOn {c c' : Computed} (hc : c ∈ d.computed) (hc' : c' ∈ d.computed)
    (h : (Layout.ofDocument d).slot c = (Layout.ofDocument d).slot c') : c = c' := by
  obtain ⟨n, v, hv, hvc⟩ := Document.exists_node hc
  obtain ⟨m, u, hu, huc⟩ := Document.exists_node hc'
  rw [Layout.slot_of_node hv hvc, Layout.slot_of_node hu huc] at h
  obtain rfl : n = m := by omega
  obtain rfl := Option.some.inj (hv.symm.trans hu)
  exact Option.some.inj (hvc.symm.trans huc)

theorem owner_of_mem (ho : (Graph.ofDocument d).evaluationOrder = .ok order)
    (hp : d.compile order = .ok p) {i : Instruction} (hi : i ∈ p.instructions) :
    i.owner ∈ d.computed ∧ i.slot = (Layout.ofDocument d).slot i.owner := by
  obtain ⟨howners, hone, -⟩ := Document.compile_eq_ok.mp hp
  obtain ⟨_, _, _, _, _, _, hi'⟩ := Document.compileOne_eq_ok.mp (hone i hi)
  refine ⟨(Graph.evaluationOrder_perm ho).subset (howners ▸ List.mem_map_of_mem hi), ?_⟩
  rw [hi']

/-- A frame after some instructions: their slots hold the values by name of their owners. -/
structure Frame.After (d : Document) (given : String → Option Float) (done : List Instruction)
    (f : Frame) : Prop where
  holds : f.Holds d given
  values : ∀ depth ≥ done.length, ∀ i ∈ done, f[i.slot]? = d.valueOf given depth i.owner

section

variable {before after : List Instruction} {i : Instruction}

theorem Frame.After.set (hf : f.After d given before)
    (ho : (Graph.ofDocument d).evaluationOrder = .ok order) (hp : d.compile order = .ok p)
    (hi : p.instructions = before ++ i :: after) {x : Float}
    (hx : ∀ depth ≥ before.length, d.valueOf given (depth + 1) i.owner = some x) :
    Frame.After d given (before ++ [i]) (f.setIfInBounds i.slot x) := by
  obtain ⟨hi₁, hi₂⟩ := owner_of_mem ho hp (i := i) (by simp [hi])
  obtain ⟨m, v, hv, hvc⟩ := Document.exists_node hi₁
  have him : i.slot = m + 1 := by
    rw [hi₂, Layout.slot_of_node hv hvc]
  refine ⟨him ▸ hf.holds.set hv hvc x, ?_⟩
  intro depth hd j hj
  obtain ⟨n, hn, rfl⟩ : ∃ n ≥ before.length, depth = n + 1 := by
    rw [List.length_append, List.length_singleton] at hd
    exact ⟨depth - 1, by omega, by omega⟩
  rw [Array.getElem?_setIfInBounds]
  split
  case isTrue heq =>
    -- Two instructions with one slot have one owner.
    have hjmem : j ∈ p.instructions := by
      rw [hi]
      simp only [List.mem_append, List.mem_cons, List.not_mem_nil, or_false] at hj ⊢
      tauto
    obtain ⟨hj₁, hj₂⟩ := owner_of_mem ho hp hjmem
    have howner : i.owner = j.owner := slot_injOn hi₁ hj₁ (by rw [← hi₂, ← hj₂, heq])
    have hlt : i.slot < f.size := by
      have hm := (List.getElem?_eq_some_iff.mp hv).1
      rw [hf.holds.size, Layout.size_ofDocument]
      omega
    rw [if_pos hlt, ← howner, hx n hn]
  case isFalse hne =>
    rcases List.mem_append.mp hj with hj | hj
    · exact hf.values (n + 1) (by omega) j hj
    · exact absurd (congrArg Instruction.slot (List.mem_singleton.mp hj)).symm hne

section

variable (hgiven : ∀ e ∈ d.equations, given e.1 = none)
  (ho : (Graph.ofDocument d).evaluationOrder = .ok order) (hp : d.compile order = .ok p)

include hgiven ho hp

/-- An instruction comes to what its equation comes to by name, but for the spelling of a name in a
fault; and all names in the equation have values. -/
theorem Frame.After.eval_respell (hf : f.After d given before)
    (hi : p.instructions = before ++ i :: after) {depth : Nat} (hd : before.length ≤ depth) :
    ∃ e t, d.equation? i.owner = some e ∧ Equation.parse e.2 = .ok t ∧
      (∀ name ∈ t.names, ∃ x, (given name <|> ByName.computed? d given depth name) = some x) ∧
      i.term.eval spellSlot (f[·]?) =
        (t.eval id fun name ↦ given name <|> ByName.computed? d given depth name).mapError
          (Fault.respell (Layout.ofDocument d).spell) := by
  obtain ⟨howners, hone, -⟩ := Document.compile_eq_ok.mp hp
  have horder : order = before.map (·.owner) ++ i.owner :: after.map (·.owner) := by
    rw [← howners, hi, List.map_append, List.map_cons]
  have hbefore : ∀ c ∈ before.map (·.owner),
      f[(Layout.ofDocument d).slot c]? = d.valueOf given depth c := by
    intro c hc
    obtain ⟨j, hj, rfl⟩ := List.mem_map.mp hc
    rw [← (owner_of_mem ho hp (i := j) (by simp [hi, hj])).2]
    exact hf.values depth hd j hj
  obtain ⟨e, t, t', he, ht, hrename, hi'⟩ := Document.compileOne_eq_ok.mp (hone i (by simp [hi]))
  have hslot : ∀ name ∈ t.names, ∀ slot, d.resolve e.1 name = .ok slot →
      f[slot]? = (given name <|> ByName.computed? d given depth name) :=
    fun name hname slot hslot ↦
      getElem?_of_resolve hf.holds hgiven ho horder hbefore he ht hname hslot
  refine ⟨e, t, he, ht, ?_, ?_⟩
  · intro name hname
    obtain ⟨slot, hresolve⟩ := Term.exists_rename_eq_ok_iff.mp ⟨t', hrename⟩ name hname
    rw [← hslot name hname slot hresolve]
    refine hf.holds.isSome slot ?_
    rcases Layout.slot?_cases (Document.resolve_eq_ok.mp hresolve) with
      ⟨-, rfl⟩ | ⟨n, v, -, hv, -, rfl⟩
    · omega
    · have hn := (List.getElem?_eq_some_iff.mp hv).1
      omega
  · rw [hi']
    refine Term.eval_rename_respell hrename fun name hname slot hresolve ↦ ?_
    refine ⟨hslot name hname slot hresolve, ?_⟩
    rw [Layout.spell, id, Document.resolve_eq_ok.mp hresolve]
    rfl

theorem Frame.After.toOption_eval (hw : d.WellDeclared) (hf : f.After d given before)
    (hi : p.instructions = before ++ i :: after) {depth : Nat} (hd : before.length ≤ depth) :
    (i.term.eval spellSlot (f[·]?)).toOption = d.valueOf given (depth + 1) i.owner := by
  obtain ⟨e, t, he, ht, -, heval⟩ := hf.eval_respell hgiven ho hp hi hd
  have hmem := Document.mem_equations_of_equation he
  have hevaluate : ∀ scope, Equation.evaluate scope e.2 = t.eval id scope := by
    intro scope
    rw [Equation.evaluate, ht]
    rfl
  simp only [heval, Except.toOption_mapError, Document.valueOf, he, Option.bind_some,
    ByName.computed?, NameMap.lookup_eq_some hw.equations_nodup hmem, Option.bind_eq_bind,
    hevaluate]

end

variable (hw : d.WellDeclared) (hgiven : ∀ e ∈ d.equations, given e.1 = none)
  (ho : (Graph.ofDocument d).evaluationOrder = .ok order) (hp : d.compile order = .ok p)

include hw hgiven ho hp

theorem execute_after (hf : f.After d given before) (hi : p.instructions = before ++ i :: after) :
    (∃ f', Program.execute f i = .ok f' ∧ f'.After d given (before ++ [i])) ∨
    (∃ e, Program.execute f i = .error e) ∧
      ∀ depth ≥ before.length, d.valueOf given (depth + 1) i.owner = none := by
  have heval : ∀ depth ≥ before.length,
      (i.term.eval spellSlot (f[·]?)).toOption = d.valueOf given (depth + 1) i.owner :=
    fun depth hd ↦ hf.toOption_eval hgiven ho hp hw hi hd
  rw [Program.execute]
  cases hx : i.term.eval spellSlot (f[·]?) with
  | ok x => exact .inl ⟨_, rfl, hf.set ho hp hi fun depth hd ↦ by rw [← heval depth hd, hx]; rfl⟩
  | error fault => exact .inr ⟨⟨_, rfl⟩, fun depth hd ↦ by rw [← heval depth hd, hx]; rfl⟩

/-- After some of the instructions their slots hold the values by name of their owners; if one of
them fails, an owner has no value. -/
theorem foldlM_execute_after (hf : f.Holds d given) (hi : p.instructions = before ++ after) :
    (∃ f', before.foldlM Program.execute f = .ok f' ∧ f'.After d given before) ∨
    (∃ e, before.foldlM Program.execute f = .error e) ∧
      ∀ depth ≥ before.length, ∃ i ∈ before, d.valueOf given depth i.owner = none := by
  induction before using List.reverseRecOn generalizing after with
  | nil => exact .inl ⟨f, rfl, hf, by simp⟩
  | append_singleton before i ih =>
    rw [List.append_assoc, List.singleton_append] at hi
    have hstep : ∀ f', before.foldlM Program.execute f = .ok f' →
        (before ++ [i]).foldlM Program.execute f = Program.execute f' i := by
      intro f' hf'
      rw [List.foldlM_append, hf']
      exact bind_pure (Program.execute f' i)
    rcases ih hi with ⟨f', hrun, hf'⟩ | ⟨⟨e, hrun⟩, hnone⟩
    · rw [hstep f' hrun]
      refine (execute_after hw hgiven ho hp hf' hi).imp_right ?_
      rintro ⟨he, hnone⟩
      refine ⟨he, fun depth hd ↦ ⟨i, by simp, ?_⟩⟩
      rw [List.length_append, List.length_singleton] at hd
      obtain ⟨n, rfl⟩ : ∃ n, depth = n + 1 := ⟨depth - 1, by omega⟩
      exact hnone n (by omega)
    · refine .inr ⟨⟨e, by rw [List.foldlM_append, hrun]; rfl⟩, ?_⟩
      intro depth hd
      rw [List.length_append] at hd
      obtain ⟨j, hj, hjnone⟩ := hnone depth (by omega)
      exact ⟨j, List.mem_append_left _ hj, hjnone⟩

structure Frame.Shows (d : Document) (given : String → Option Float) (f : Frame) (c : Values) :
    Prop where
  holds : f.Holds d given
  computed : ∀ v e, d.equation? v = some e → f[(Layout.ofDocument d).slot v]? = some (c e.1)

omit hw hgiven in
theorem instructions_length : p.instructions.length = d.equations.length := by
  obtain ⟨howners, -⟩ := Document.compile_eq_ok.mp hp
  rw [← List.length_map (f := (·.owner)), howners, (Graph.evaluationOrder_perm ho).length_eq]
  simp [Document.computed, Document.equations, Nat.add_comm]

omit hw hgiven in
theorem Frame.After.exists_value (hf : f.After d given p.instructions) {v : Computed}
    {e : String × String} (he : d.equation? v = some e) :
    ∃ x, f[(Layout.ofDocument d).slot v]? = some x ∧
      ByName.computed? d given d.equations.length e.1 = some x := by
  obtain ⟨howners, -⟩ := Document.compile_eq_ok.mp hp
  have hv := Document.mem_computed_of_equation he
  have hmem : v ∈ p.instructions.map (·.owner) :=
    howners ▸ (Graph.evaluationOrder_perm ho).symm.subset hv
  obtain ⟨i, hi, rfl⟩ := List.mem_map.mp hmem
  obtain ⟨n, u, hu, huc⟩ := Document.exists_node hv
  have hslot := Layout.slot_of_node hu huc
  have hn := (List.getElem?_eq_some_iff.mp hu).1
  obtain ⟨x, hx⟩ := hf.holds.isSome (n + 1) (by omega)
  refine ⟨x, hslot ▸ hx, ?_⟩
  rw [← hx, ← hslot, ← (owner_of_mem ho hp hi).2,
    hf.values _ (instructions_length ho hp).le i hi, Document.valueOf, he]
  rfl

/-- A program finds the values by name, or fails because one is missing. -/
theorem run_agrees (hf : f.Holds d given) :
    Except.Agrees (Frame.Shows d given) (p.run f) (settle d given) := by
  have hafter := foldlM_execute_after hw hgiven ho hp hf (List.append_nil p.instructions).symm
  rw [instructions_length ho hp] at hafter
  rcases hafter with ⟨f', hrun, hf'⟩ | ⟨⟨e, hrun⟩, hnone⟩
  · have hall : ∀ e ∈ d.equations,
        (ByName.computed? d given d.equations.length e.1).isSome := by
      intro e he
      obtain ⟨v, -, hv⟩ := Document.mem_equations_iff.mp he
      obtain ⟨x, -, hx⟩ := hf'.exists_value ho hp hv
      simp [hx]
    rw [settle, if_pos (List.all_eq_true.mpr hall)]
    refine ⟨f', hrun, hf'.holds, ?_⟩
    intro v e he
    obtain ⟨x, hfx, hx⟩ := hf'.exists_value ho hp he
    rw [hfx, hx]
    rfl
  · obtain ⟨i, hi, hnone⟩ := hnone _ le_rfl
    obtain ⟨e', he'⟩ := Option.isSome_iff_exists.mp
      (Document.mem_computed_iff.mp (owner_of_mem ho hp hi).1)
    have hmem : e' ∈ d.equations :=
      Document.mem_equations_iff.mpr ⟨i.owner, (owner_of_mem ho hp hi).1, he'⟩
    rw [Document.valueOf, he', Option.bind_some] at hnone
    rw [settle, if_neg]
    · exact ⟨e, hrun⟩
    · rw [List.all_eq_true]
      intro hall
      simpa [hnone] using hall e' hmem

end

end

end SystemDynamics
