import SystemDynamics.Proofs.Equation.Arity
import SystemDynamics.Proofs.Simulation.Agreement
import SystemDynamics.Proofs.Simulation.Checked

namespace SystemDynamics

open Equation (Term)

structure Model.LaidOut (m : Model) : Prop where
  initialStocks : m.program.initialStocks.length = m.program.layout.stocks.length
  parameters : m.program.parameters.length = m.program.layout.parameters.length
  declared : m.document.parameters.length = m.program.layout.parameters.length
  inflows : m.program.inflows.length = m.program.layout.stocks.length
  outflows : m.program.outflows.length = m.program.layout.stocks.length
  wired : ∀ js ∈ m.program.inflows ++ m.program.outflows, ∀ j ∈ js,
    j < m.program.layout.flows.length
  owner : ∀ i ∈ m.program.instructions, ∃ e, m.document.equation? i.owner = some e ∧
    m.program.layout.names[i.slot]? = some e.1
  callsFit : ∀ i ∈ m.program.instructions, i.term.CallsFit
  reads : ∀ i ∈ m.program.instructions, ∀ s ∈ i.term.names, s < m.program.layout.size

theorem Layout.names_slot {d : Document} {c : Computed} {e : String × String}
    (he : d.equation? c = some e) :
    (ofDocument d).names[(ofDocument d).slot c]? = some e.1 := by
  have hnode : ∀ kind i, (d.idsOf kind)[i]? = some e.1 →
      Variable.computed? ⟨e.1, kind, i⟩ = some c →
      (ofDocument d).names[(ofDocument d).slot c]? = some e.1 := by
    intro kind i hid hc
    have hv := Document.nodes_getElem?_of_idsOf hid
    rw [slot_of_node hv hc, names_ofDocument, List.getElem?_cons_succ, List.getElem?_map, hv]
    rfl
  cases c with
  | auxiliary i =>
    obtain ⟨a, ha, rfl⟩ := Option.map_eq_some_iff.mp he
    exact hnode .auxiliary i (by simp [Document.idsOf, ha]) rfl
  | flow i =>
    obtain ⟨f, hf, rfl⟩ := Option.map_eq_some_iff.mp he
    exact hnode .flow i (by simp [Document.idsOf, hf]) rfl

theorem Layout.slot?_lt {d : Document} {name : String} {slot : Nat}
    (h : (ofDocument d).slot? name = some slot) : slot < (ofDocument d).size := by
  rw [size_ofDocument]
  rcases slot?_cases h with ⟨-, rfl⟩ | ⟨m, v, -, hv, -, rfl⟩
  · omega
  · have hm := (List.getElem?_eq_some_iff.mp hv).1
    omega

theorem Layout.firstParameter_le_size (l : Layout) : l.firstParameter ≤ l.size := by
  rw [size_eq, firstFlow, firstAuxiliary]
  omega

theorem Layout.size_pos (l : Layout) : 0 < l.size :=
  Nat.succ_pos _

theorem lt_of_mem_wiring {d : Document} {side : Flow → Option String} {js : List Nat}
    (hjs : js ∈ wiring d side) {j : Nat} (hj : j ∈ js) : j < d.flows.length := by
  obtain ⟨⟨s, i⟩, -, rfl⟩ := List.mem_map.mp hjs
  dsimp only at hj
  split at hj
  case isTrue => simp at hj
  case isFalse =>
    obtain ⟨⟨f, j'⟩, hf, hj⟩ := List.mem_filterMap.mp hj
    dsimp only at hj
    split at hj
    case isTrue =>
      obtain rfl := Option.some.inj hj
      exact (List.getElem?_eq_some_iff.mp (List.mem_zipIdx_iff_getElem?.mp hf)).1
    case isFalse => simp at hj

theorem Model.laidOut_of_validate {domain : Domain} {d : Document} {m : Model}
    (h : domain.validate d = .ok m) : m.LaidOut := by
  obtain ⟨-, p, hp, rfl⟩ := Domain.validate_eq_ok.mp h
  obtain ⟨order, -, hp⟩ := Validation.program_eq_ok.mp hp
  obtain ⟨-, hone, hlayout, hstocks, hparameters, hin, hout⟩ := Document.compile_eq_ok.mp hp
  constructor <;> simp only [hlayout]
  case initialStocks => simp [hstocks, Layout.ofDocument]
  case parameters => simp [hparameters, Layout.ofDocument]
  case declared => simp [Domain.complete, Layout.ofDocument]
  case inflows => simp [hin, length_wiring, Layout.ofDocument]
  case outflows => simp [hout, length_wiring, Layout.ofDocument]
  case wired =>
    intro js hjs j hj
    rw [hin, hout, List.mem_append] at hjs
    rw [Layout.ofDocument, List.length_map]
    exact hjs.elim (lt_of_mem_wiring · hj) (lt_of_mem_wiring · hj)
  case owner =>
    intro i hi
    obtain ⟨e, _, _, he, _, _, hi⟩ := Document.compileOne_eq_ok.mp (hone i hi)
    refine ⟨e, he, ?_⟩
    rw [hi]
    exact Layout.names_slot he
  case callsFit =>
    intro i hi
    obtain ⟨_, t, t', _, ht, ht', hi⟩ := Document.compileOne_eq_ok.mp (hone i hi)
    rw [hi]
    exact (Term.rename_keeps ht').2 (Equation.parse_callsFit ht)
  case reads =>
    intro i hi s hs
    obtain ⟨_, _, _, _, _, _, hslot⟩ := Document.exists_name_of_slot (hone i hi) hs
    exact Layout.slot?_lt (Document.resolve_eq_ok.mp hslot)

namespace Checked

variable {α β : Type}

/-- A checked computation that does what an unchecked one does: it gives the same, of which
something holds, or fails in the same way, which is an expected one. -/
inductive Follows (P : α → Prop) : Except Stop α → Except RunError α → Prop
  | ok {a : α} (h : P a) : Follows P (.ok a) (.ok a)
  | failed {e : RunError} (h : e.IsExpected) : Follows P (.error (.failed e)) (.error e)

theorem Follows.bind {P : α → Prop} {Q : β → Prop} {x : Except Stop α} {y : Except RunError α}
    {f : α → Except Stop β} {g : α → Except RunError β} (h : Follows P x y)
    (hf : ∀ a, P a → Follows Q (f a) (g a)) : Follows Q (x >>= f) (y >>= g) := by
  cases h with
  | ok h => exact hf _ h
  | failed h => exact .failed h

theorem Follows.mapError {P : α → Prop} {y : Except RunError α} (hok : ∀ a, y = .ok a → P a)
    (herror : ∀ e, y = .error e → e.IsExpected) : Follows P (y.mapError .failed) y := by
  cases y with
  | ok a => exact .ok (hok a rfl)
  | error e => exact .failed (herror e rfl)

theorem Follows.eq_mapError {P : α → Prop} {x : Except Stop α} {y : Except RunError α}
    (h : Follows P x y) : x = y.mapError .failed ∧ ∀ e, y = .error e → e.IsExpected := by
  cases h with
  | ok h => exact ⟨rfl, fun e he ↦ by simp at he⟩
  | failed h => exact ⟨rfl, fun e he ↦ Except.error.inj he ▸ h⟩

theorem inRange_of {p : Prop} [Decidable p] (h : p) : inRange p = .ok () :=
  if_pos h

theorem item_of_getElem? {o : Option α} {a : α} (h : o = some a) : item o = .ok a :=
  h ▸ rfl

theorem put_of_lt {f : Frame} {slot : Nat} (h : slot < f.size) (x : Float) :
    put f slot x = .ok (f.setIfInBounds slot x) := by
  rw [put, dif_pos h, Array.setIfInBounds, dif_pos h]

theorem copy_append (before old after xs : List Float) (h : xs.length = old.length) :
    copy (before ++ old ++ after).toArray before.length (before.length + xs.length) xs =
      .ok (before ++ xs ++ after).toArray := by
  rw [copy, inRange_of (by simp; omega), Except.ok_bind]
  refine congrArg Except.ok (Array.ext_getElem? fun slot ↦ ?_)
  simp only [Program.getElem?_foldl_setIfInBounds, List.getElem?_toArray, List.size_toArray,
    List.length_append, List.append_assoc, List.getElem?_append]
  by_cases hbefore : slot < before.length
  · rw [if_neg (by omega), if_pos hbefore, if_pos hbefore]
  by_cases hin : slot - before.length < xs.length
  · rw [if_pos (by omega), if_neg hbefore, if_pos hin]
  · rw [if_neg (by omega), if_neg hbefore, if_neg hbefore, if_neg (by omega), if_neg hin, h]

theorem frame_eq {p : Program} (hstocks : p.initialStocks.length = p.layout.stocks.length)
    {parameters : List Float} (hparameters : parameters.length = p.layout.parameters.length) :
    frame p parameters = .ok (p.frame 0 p.initialStocks parameters) := by
  let computed : List Float :=
    List.replicate (p.layout.auxiliaries.length + p.layout.flows.length) 0
  have hblank : Array.replicate p.layout.size (0 : Float) =
      ([0] ++ List.replicate p.layout.stocks.length 0 ++
        (List.replicate p.layout.parameters.length 0 ++ computed)).toArray := by
    rw [← List.toArray_replicate]
    simp only [computed, Layout.size_eq, Layout.firstFlow, Layout.firstAuxiliary,
      Layout.firstParameter, Layout.firstStock, List.replicate_append_replicate,
      ← List.replicate_one]
    congr 2
    omega
  have hcopy := copy_append [0] (List.replicate p.layout.stocks.length 0)
    (List.replicate p.layout.parameters.length 0 ++ computed) p.initialStocks (by simpa)
  have hcopy' := copy_append ([0] ++ p.initialStocks)
    (List.replicate p.layout.parameters.length 0) computed parameters (by simpa)
  rw [List.length_singleton, hstocks, ← hblank] at hcopy
  rw [List.length_append, List.length_singleton, hstocks, hparameters] at hcopy'
  rw [← List.append_assoc] at hcopy
  rw [frame]
  dsimp only [Layout.firstAuxiliary, Layout.firstParameter, Layout.firstStock]
  rw [hcopy, Except.ok_bind, hcopy', Program.frame]
  rfl

theorem load_eq {p : Program} {f : Frame} (hf : f.size = p.layout.size) (time : Float)
    {stocks : List Float} (hstocks : stocks.length = p.layout.stocks.length) :
    load p f time stocks = .ok (Program.load f time stocks) := by
  rw [load, put_of_lt (hf ▸ p.layout.size_pos), Except.ok_bind, copy, inRange_of ?_, Except.ok_bind]
  · rfl
  · rw [Array.size_setIfInBounds, hf, hstocks, Layout.firstParameter, Nat.add_sub_cancel_left]
    exact ⟨Nat.le_add_right _ _, p.layout.firstParameter_le_size, rfl⟩

theorem slice_eq {f : Frame} {first last : Nat} (h : first ≤ last ∧ last ≤ f.size) :
    slice f first last = .ok ((f.toList.take last).drop first) := by
  rw [slice, inRange_of h]
  rfl

theorem record_eq {l : Ledger} {slots points point : Nat} (hl : l.HasShape slots points)
    (hp : point < points) (f : Frame) : record l point f = .ok (l.record point f) := by
  rw [record, inRange_of ?_]
  · rfl
  · intro row hrow
    obtain ⟨slot, hslot, rfl⟩ := List.getElem_of_mem (List.mem_of_mem_take hrow)
    rw [Array.length_toList] at hslot
    have hlength := hl.length slot (hl.size ▸ hslot)
    rw [Ledger.row_of_lt hslot, Array.length_toList] at hlength
    rwa [Array.getElem_toList, hlength]

theorem series_eq {layout : Layout} {l : Ledger} (hl : l.rows.size = layout.size)
    {ids : List String} {first last : Nat} (h : layout.IsSection ids first last) :
    series layout l first last = .ok (l.series first ids) := by
  have hrows : ((List.range' first (last - first)).mapM fun slot ↦ do
      let name ← item layout.names[slot]?
      let row ← item l.rows[slot]?
      return (name, row.toList)) =
      .ok (ids.zipIdx.map fun (id, i) ↦ (id, l.row (first + i))) := by
    rw [Except.mapM_eq_ok, List.forall₂_iff_get]
    refine ⟨by simp [h.last], ?_⟩
    intro i hi hi'
    simp only [List.length_map, List.length_zipIdx] at hi'
    have hname : layout.names[first + i]? = some ids[i] :=
      (h.getElem?_names hi').trans (List.getElem?_eq_getElem hi')
    have hslot : first + i < l.rows.size := hl ▸ (List.getElem?_eq_some_iff.mp hname).1
    simp only [List.get_eq_getElem, List.getElem_range', Nat.one_mul, List.getElem_map,
      List.getElem_zipIdx, Nat.zero_add, hname, Array.getElem?_eq_getElem hslot, item,
      Except.ok_bind, Ledger.row_of_lt hslot]
    rfl
  rw [series, hrows]
  rfl

theorem trajectory_eq {layout : Layout} {l : Ledger} (hl : l.rows.size = layout.size)
    (settings : RunSettings) :
    trajectory layout l settings = .ok (layout.trajectory l settings) := by
  have htime : 0 < l.rows.size := hl ▸ layout.size_pos
  rw [trajectory, series_eq hl layout.isSection_stocks, series_eq hl layout.isSection_flows,
    series_eq hl layout.isSection_auxiliaries, Array.getElem?_eq_getElem htime,
    Layout.trajectory, Ledger.row_of_lt htime]
  rfl

variable {m : Model} (hm : m.LaidOut)

include hm

theorem rates_eq {f : Frame} (hf : f.size = m.program.layout.size) :
    rates m.program f m.program.layout.stocks.length =
      .ok (m.program.rates (m.program.flowIn f)) := by
  have hsize := Layout.size_eq m.program.layout
  have hflow : ∀ j < m.program.layout.flows.length,
      item ((f.toList.take m.program.layout.size).drop m.program.layout.firstFlow)[j]? =
        .ok (m.program.flowIn f j) := by
    intro j hj
    refine item_of_getElem? ?_
    rw [List.getElem?_drop, List.getElem?_take_of_lt (by omega), Array.getElem?_toList,
      Program.flowIn, Array.getElem?_eq_getElem (by omega), Array.getD_eq_getD_getElem?,
      Array.getElem?_eq_getElem (by omega)]
    rfl
  have hflows : ∀ js ∈ m.program.inflows ++ m.program.outflows,
      (js.mapM fun j ↦
        item ((f.toList.take m.program.layout.size).drop m.program.layout.firstFlow)[j]?) =
      .ok (js.map (m.program.flowIn f)) :=
    fun js hjs ↦ Except.mapM_eq_ok_map fun j hj ↦ hflow j (hm.wired js hjs j hj)
  rw [rates, slice_eq (by omega), Except.ok_bind, Except.mapM_eq_ok, List.forall₂_iff_get]
  refine ⟨?_, ?_⟩
  · rw [List.length_range, Program.length_rates hm.inflows hm.outflows]
  · intro i hi hi'
    rw [List.length_range] at hi
    have hin := List.getElem?_eq_getElem (hm.inflows ▸ hi)
    have hout := List.getElem?_eq_getElem (hm.outflows ▸ hi)
    simp only [List.get_eq_getElem, List.getElem_range, item_of_getElem? hin,
      item_of_getElem? hout, Except.ok_bind, Program.rates, List.getElem_zipWith, netFlow]
    rw [hflows _ (List.mem_append_left _ (List.getElem_mem _)), Except.ok_bind,
      hflows _ (List.mem_append_right _ (List.getElem_mem _)), Except.ok_bind]
    rfl

theorem failure_eq (time : Float) {i : Instruction} (hi : i ∈ m.program.instructions)
    (fault : Equation.Fault) : failure m time i fault = .ok (m.failure time i fault) := by
  obtain ⟨e, he, hname⟩ := hm.owner i hi
  rw [failure, Model.failure, he, hname]
  rfl

theorem execute_follows {f : Frame} (hf : f.size = m.program.layout.size) (time : Float)
    {i : Instruction} (hi : i ∈ m.program.instructions) :
    Follows (fun f : Frame ↦ f.size = m.program.layout.size) (execute m time f i)
      ((Program.execute f i).mapError fun (i, fault) ↦ m.failure time i fault) := by
  rw [execute, Program.execute]
  cases h : i.term.eval spellSlot (f[·]?) with
  | ok x =>
    obtain ⟨e, -, hname⟩ := hm.owner i hi
    have hslot := (List.getElem?_eq_some_iff.mp hname).1
    dsimp only
    rw [put_of_lt (hf ▸ hslot)]
    exact .ok (by rw [Array.size_setIfInBounds, hf])
  | error fault =>
    -- The slots that the term reads are in the frame, so none of its names is unknown.
    obtain ⟨cause, rfl⟩ : ∃ cause, fault = .undefined cause := by
      refine (Term.eval_eq_error (hm.callsFit i hi) h).resolve_right ?_
      rintro ⟨s, hs, hnone, -⟩
      have hlt := hm.reads i hi s hs
      rw [Array.getElem?_eq_getElem (by omega)] at hnone
      simp at hnone
    dsimp only
    rw [failure_eq hm time hi, Except.ok_bind]
    exact .failed ⟨cause, rfl⟩

theorem foldlM_execute_follows {is : List Instruction} (his : ∀ i ∈ is, i ∈ m.program.instructions)
    {f : Frame} (hf : f.size = m.program.layout.size) (time : Float) :
    Follows (fun f : Frame ↦ f.size = m.program.layout.size) (is.foldlM (execute m time) f)
      ((is.foldlM Program.execute f).mapError fun (i, fault) ↦ m.failure time i fault) := by
  induction is generalizing f with
  | nil => exact .ok hf
  | cons i is ih =>
    rw [List.forall_mem_cons] at his
    rw [List.foldlM_cons, List.foldlM_cons, Except.mapError_bind]
    exact (execute_follows hm hf time his.1).bind fun f hf ↦ ih his.2 hf

theorem evaluate_follows {f : Frame} (hf : f.size = m.program.layout.size) (time : Float)
    {stocks : List Float} (hstocks : stocks.length = m.program.layout.stocks.length) :
    Follows (fun f : Frame ↦ f.size = m.program.layout.size) (evaluate m f time stocks)
      (m.evaluate f time stocks) := by
  rw [evaluate, load_eq hf time hstocks, Except.ok_bind]
  exact foldlM_execute_follows hm (fun _ hi ↦ hi) (by rw [Program.size_load, hf]) time

def SameOf (count : Nat) (k k' : List Float) : Prop :=
  k = k' ∧ k.length = count

theorem simulates_rate :
    RungeKutta.Simulates (fun f f' ↦ f = f' ∧ f.size = m.program.layout.size)
      (fun stop e ↦ stop = .failed e ∧ e.IsExpected) (SameOf m.program.layout.stocks.length)
      (SameOf m.program.layout.stocks.length) (rate m) m.rate where
  answers := by
    rintro f _ stocks _ buffer _ t ⟨rfl, hf⟩ ⟨rfl, hstocks⟩ ⟨rfl, hbuffer⟩
    have h := evaluate_follows hm hf t hstocks
    rw [rate, Model.rate]
    generalize evaluate m f t stocks = x at h ⊢
    generalize m.evaluate f t stocks = y at h ⊢
    cases h with
    | failed he => exact .error ⟨rfl, hf⟩ ⟨rfl, hbuffer⟩ ⟨rfl, he⟩
    | @ok f' hf' =>
      simp only [hbuffer, rates_eq hm hf']
      exact .ok ⟨rfl, hf'⟩ ⟨rfl, Program.length_rates hm.inflows hm.outflows _⟩
  buffer h := h
  offset := by
    rintro buffer _ y _ k _ scale ⟨rfl, hbuffer⟩ ⟨rfl, -⟩ ⟨rfl, -⟩
    exact ⟨rfl, by rw [RungeKutta.length_offset, hbuffer]⟩
  combine := by
    rintro y _ a _ b _ c _ d _ h ⟨rfl, hy⟩ ⟨rfl, -⟩ ⟨rfl, -⟩ ⟨rfl, -⟩ ⟨rfl, -⟩
    exact ⟨rfl, by rw [RungeKutta.length_combine, hy]⟩

theorem step_follows {s : RungeKutta Float} (hs : s.Fits m.program.layout.stocks.length)
    {f : Frame} (hf : f.size = m.program.layout.size) (t h : Float) {stocks : List Float}
    (hstocks : stocks.length = m.program.layout.stocks.length) :
    ∃ f' s' y, s.stepWith m.rate f t h stocks = (f', s', y) ∧
      Follows (fun x ↦ x.1.size = m.program.layout.size ∧
          x.2.1.Fits m.program.layout.stocks.length ∧
          x.2.2.length = m.program.layout.stocks.length)
        (step m s f t h stocks) (y.map fun next ↦ (f', s', next)) := by
  have hsteps := (simulates_rate hm).steps (w := f) ⟨rfl, hf⟩ (s := s)
    ⟨⟨rfl, hs.k1⟩, ⟨rfl, hs.k2⟩, ⟨rfl, hs.k3⟩, ⟨rfl, hs.k4⟩, ⟨rfl, hs.probe⟩⟩ t h
    (y := stocks) ⟨rfl, hstocks⟩
  -- The checked and the unchecked machine take the same step; one that succeeds has filled all four
  -- buffers with a rate for each stock.
  rw [step]
  generalize s.stepWith (rate m) f t h stocks = x at hsteps ⊢
  generalize s.stepWith m.rate f t h stocks = x' at hsteps ⊢
  cases hsteps with
  | error hw _ he =>
    obtain ⟨rfl, he⟩ := he
    exact ⟨_, _, _, rfl, .failed he⟩
  | @ok f₁ f₂ s₁ s₂ y₁ y₂ hw hs' hy =>
    obtain ⟨rfl, hsize⟩ := hw
    obtain ⟨rfl, hlength⟩ := hy
    obtain ⟨k1, k2, k3, k4, probe⟩ := s₁
    obtain ⟨k1', k2', k3', k4', probe'⟩ := s₂
    obtain ⟨⟨rfl, h1⟩, ⟨rfl, h2⟩, ⟨rfl, h3⟩, ⟨rfl, h4⟩, ⟨rfl, hprobe⟩⟩ := hs'
    refine ⟨_, _, _, rfl, ?_⟩
    dsimp only at h1 h2 h3 h4 ⊢
    rw [Except.ok_bind, inRange_of (by simp [hstocks, h1, h2, h3, h4])]
    exact .ok ⟨hsize, ⟨h1, h2, h3, h4, hprobe⟩, hlength⟩

/-- Along a run the frame has all slots, the integrator a number for each stock, and the ledger a
column for each point that is still to come. -/
theorem recordFrom_follows (grid : List Float) (point : Nat) {stocks : List Float}
    (hstocks : stocks.length = m.program.layout.stocks.length) {f : Frame}
    (hf : f.size = m.program.layout.size) {s : RungeKutta Float}
    (hs : s.Fits m.program.layout.stocks.length) {l : Ledger}
    (hl : l.HasShape m.program.layout.size (point + grid.length)) :
    Follows (fun l : Ledger ↦ l.rows.size = m.program.layout.size)
      (recordFrom m grid point stocks f s l) (m.recordFrom grid point stocks f s l) := by
  induction grid generalizing point stocks f s l with
  | nil => exact .ok hl.size
  | cons t grid ih =>
    cases grid with
    | nil =>
      refine (evaluate_follows hm hf t hstocks).bind fun f hf ↦ ?_
      rw [record_eq hl (by simp) f]
      exact .ok (hl.record point f).size
    | cons next grid =>
      refine (evaluate_follows hm hf t hstocks).bind fun f hf ↦ ?_
      rw [record_eq hl (by simp) f, Except.ok_bind]
      obtain ⟨f', s', y, he, hstep⟩ := step_follows hm hs hf t (next - t) hstocks
      have hl' : (l.record point f).HasShape m.program.layout.size
          (point + 1 + (next :: grid).length) := by
        rw [Nat.add_assoc, Nat.add_comm 1]
        exact hl.record point f
      rw [he]
      cases y with
      | error e => exact hstep.bind fun x hx ↦ ih (point + 1) hx.2.2 hx.1 hx.2.1 hl'
      | ok stocks' => exact hstep.bind fun x hx ↦ ih (point + 1) hx.2.2 hx.1 hx.2.1 hl'

theorem resolve_follows (overrides : NameMap Float) :
    Follows (fun parameters : List Float ↦ parameters.length = m.program.layout.parameters.length)
      (resolve m overrides) (m.resolve overrides) := by
  have hplaces : ∀ id ∈ overrides.names, ∀ i ∈ place? m id, i < m.program.parameters.length := by
    intro id _ i hi
    rw [hm.parameters, ← hm.declared]
    exact (List.findIdx?_eq_some_iff_getElem.mp hi).1
  rw [resolve, inRange_of hplaces, Except.ok_bind]
  refine .mapError ?_ ?_
  · intro parameters h
    rw [Model.resolve] at h
    split at h
    · simp at h
    · obtain rfl := Except.ok.inj h
      simp [hm.parameters]
  · intro e h
    rw [Model.resolve] at h
    split at h
    · obtain rfl := Except.error.inj h
      trivial
    · simp at h

theorem simulate_follows (overrides : NameMap Float) (limit : Nat) :
    Follows (fun _ ↦ True) (simulate m overrides limit) (m.simulate overrides limit) := by
  refine (resolve_follows hm overrides).bind fun parameters hparameters ↦ ?_
  cases Grid.build m.horizon.start m.horizon.stop m.horizon.step limit with
  | error points => exact .failed trivial
  | ok grid =>
    have hrun := recordFrom_follows hm grid 0 hm.initialStocks
      (f := m.program.frame 0 m.program.initialStocks parameters) ?_
      (s := .ofDimension m.program.initialStocks.length)
      (hm.initialStocks ▸ RungeKutta.fits_ofDimension _)
      (l := .blank m.program.layout.size grid.length)
      (by rw [Nat.zero_add]; exact Ledger.blank_hasShape _ _)
    · simp only [Except.mapError, Except.ok_bind]
      rw [frame_eq hm.initialStocks hparameters, Except.ok_bind]
      exact hrun.bind fun l hl ↦ trajectory_eq hl _ ▸ .ok trivial
    · simp only [Program.frame, List.size_toArray, List.length_append, List.length_cons,
        List.length_replicate, hm.initialStocks, hparameters, Layout.size_eq, Layout.firstFlow,
        Layout.firstAuxiliary, Layout.firstParameter, Layout.firstStock]
      omega

end Checked

/-- A run of an accepted model is the same with all indices checked, whatever the overrides and the
limit: no index is out of range. If it fails, an override is not finite, the grid is too large, or
the value of an equation is undefined. -/
theorem accepted_run_stays_in_range (domain : Domain) (d : Document) (m : Model)
    (h : domain.validate d = .ok m) (overrides : NameMap Float) (limit : Nat) :
    Checked.simulate m overrides limit = (m.simulate overrides limit).mapError .failed ∧
      ∀ e, m.simulate overrides limit = .error e → e.IsExpected :=
  (Checked.simulate_follows (Model.laidOut_of_validate h) overrides limit).eq_mapError

theorem accepted_run_stays_in_range_training :
    ∃ m, Domain.aerodin.validate training = .ok m ∧
      (∃ r, Checked.simulate m (.ofList [("training_time", 4)]) 10 = .ok r) ∧
      ∃ e, m.simulate (.ofList [("training_time", 0)]) 10 = .error e ∧ e.IsExpected := by
  have hruns : ((Domain.aerodin.validate training).toOption.any fun m ↦
      (m.simulate (.ofList [("training_time", 4)]) 10).toBool &&
        !(m.simulate (.ofList [("training_time", 0)]) 10).toBool) := by decide +kernel
  obtain ⟨m, hm, hruns⟩ := (Option.any_eq_true _ _).mp hruns
  rw [Except.toOption_eq_some] at hm
  obtain ⟨hok, herror⟩ := (Bool.and_eq_true _ _).mp hruns
  obtain ⟨r, hr⟩ := Except.toBool_eq_true.mp hok
  obtain ⟨e, he⟩ := Except.toBool_eq_false.mp ((Bool.not_eq_true' _).mp herror)
  have h := accepted_run_stays_in_range .aerodin training m hm
  refine ⟨m, hm, ⟨r, ?_⟩, e, he, (h _ 10).2 e he⟩
  rw [(h _ 10).1, hr]
  rfl

end SystemDynamics
