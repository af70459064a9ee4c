import SystemDynamics.Proofs.Simulation.Influence
import SystemDynamics.Proofs.Simulation.Overrides

namespace SystemDynamics

open Dependency (Graph)

variable {k : Nat}

structure Frame.SameBut (k : Nat) (f f' : Frame) : Prop where
  size : f'.size = f.size
  slot : ∀ s, s ≠ k → f'[s]? = f[s]?

theorem Frame.SameBut.set {f f' : Frame} (h : f.SameBut k f') (s : Nat) (x : Float) :
    Frame.SameBut k (f.setIfInBounds s x) (f'.setIfInBounds s x) where
  size := by simpa using h.size
  slot n hn := by
    rw [Array.getElem?_setIfInBounds, Array.getElem?_setIfInBounds, h.size, h.slot n hn]

theorem Frame.SameBut.load {f f' : Frame} (h : f.SameBut k f') (time : Float)
    (stocks : List Float) :
    Frame.SameBut k (Program.load f time stocks) (Program.load f' time stocks) where
  size := by rw [Program.size_load, Program.size_load, h.size]
  slot n hn := by
    rw [Program.getElem?_load, Program.getElem?_load, h.size, h.slot n hn]

theorem Program.execute_sameBut {f f' : Frame} (h : f.SameBut k f') {i : Instruction}
    (hi : k ∉ i.term.names) :
    Except.Matches (Frame.SameBut k) (execute f i) (execute f' i) := by
  have heval : i.term.eval spellSlot (f'[·]?) = i.term.eval spellSlot (f[·]?) := by
    refine i.term.eval_congr spellSlot fun s hs ↦ h.slot s ?_
    intro he
    exact hi (he ▸ hs)
  rw [execute, execute, heval]
  cases i.term.eval spellSlot (f[·]?) with
  | error fault => exact .error _
  | ok x => exact .ok (h.set i.slot x)

theorem Program.foldlM_execute_sameBut {f f' : Frame} (h : f.SameBut k f')
    {is : List Instruction} (hi : ∀ i ∈ is, k ∉ i.term.names) :
    Except.Matches (Frame.SameBut k) (is.foldlM execute f) (is.foldlM execute f') := by
  induction is generalizing f f' with
  | nil => exact .ok h
  | cons i is ih =>
    rw [List.forall_mem_cons] at hi
    rw [List.foldlM_cons, List.foldlM_cons]
    exact (execute_sameBut h hi.1).bind fun f f' hf ↦ ih hf hi.2

def Ledger.SameBut (k : Nat) (l l' : Ledger) : Prop :=
  ∀ slot, slot ≠ k → l'.rows[slot]? = l.rows[slot]?

theorem Ledger.SameBut.record {l l' : Ledger} (h : l.SameBut k l') (point : Nat) {f f' : Frame}
    (hf : f.SameBut k f') : Ledger.SameBut k (l.record point f) (l'.record point f') := by
  intro slot hslot
  have hx : f'.toList[slot - 0]? = f.toList[slot - 0]? := by
    simpa using hf.slot slot hslot
  simp only [Ledger.record, Ledger.getElem?_foldl_modify, hx, h slot hslot]

theorem Ledger.SameBut.row {l l' : Ledger} (h : l.SameBut k l') {slot : Nat} (hslot : slot ≠ k) :
    l'.row slot = l.row slot := by
  rw [Ledger.row, Ledger.row, h slot hslot]

theorem Layout.trajectory_sameBut {layout : Layout} {j : Nat} (hj : j < layout.parameters.length)
    {l l' : Ledger} (h : l.SameBut (layout.firstParameter + j) l') (settings : RunSettings) :
    layout.trajectory l' settings = layout.trajectory l settings := by
  have hseries : ∀ (first : Nat) (ids : List String),
      (∀ i < ids.length, first + i ≠ layout.firstParameter + j) →
        l'.series first ids = l.series first ids := by
    intro first ids hne
    refine congrArg NameMap.ofList (List.map_congr_left fun e he ↦ ?_)
    obtain ⟨id, i⟩ := e
    have hi := (List.getElem?_eq_some_iff.mp (List.mem_zipIdx_iff_getElem?.mp he)).1
    exact congrArg (id, ·) (h.row (hne i hi))
  rw [trajectory, trajectory]
  congr 1
  · exact h.row (by simp only [firstParameter, firstStock]; omega)
  · refine hseries _ _ fun i hi ↦ ?_
    simp only [firstParameter, firstStock]
    omega
  · refine hseries _ _ fun i hi ↦ ?_
    simp only [firstFlow, firstAuxiliary]
    omega
  · refine hseries _ _ fun i hi ↦ ?_
    simp only [firstAuxiliary]
    omega

namespace Model

variable {m : Model}

section

variable (hunread : ∀ i ∈ m.program.instructions, k ∉ i.term.names)

include hunread

theorem evaluate_sameBut {f f' : Frame} (h : f.SameBut k f') (time : Float)
    (stocks : List Float) :
    Except.Matches (Frame.SameBut k) (m.evaluate f time stocks) (m.evaluate f' time stocks) :=
  (Program.foldlM_execute_sameBut (h.load time stocks) hunread).mapError _

variable (hk : k < m.program.layout.firstFlow)

include hk

theorem rate_sameBut (f f' : Frame) (time : Float) (stocks buffer : List Float)
    (h : f.SameBut k f') : ∃ g g' rates e, m.rate f time stocks buffer = (g, rates, e) ∧
      m.rate f' time stocks buffer = (g', rates, e) ∧ g.SameBut k g' := by
  have hmatch := evaluate_sameBut hunread h time stocks
  rw [rate, rate]
  revert hmatch
  generalize m.evaluate f time stocks = x
  generalize m.evaluate f' time stocks = x'
  intro hmatch
  cases hmatch with
  | error e => exact ⟨f, f', buffer, some e, rfl, rfl, h⟩
  | @ok g g' hg =>
    have hflow : m.program.flowIn g' = m.program.flowIn g := by
      funext i
      rw [Program.flowIn, Program.flowIn, Array.getD_eq_getD_getElem?,
        Array.getD_eq_getD_getElem?, hg.slot _ (by omega)]
    exact ⟨g, g', _, none, rfl, by simp only [hflow], hg⟩

/-- A run does not notice what is held in a slot that no instruction reads. -/
theorem recordFrom_sameBut (grid : List Float) (point : Nat) (stocks : List Float) {f f' : Frame}
    (hf : f.SameBut k f') (s : RungeKutta Float) {l l' : Ledger} (hl : l.SameBut k l') :
    Except.Matches (Ledger.SameBut k) (m.recordFrom grid point stocks f s l)
      (m.recordFrom grid point stocks f' s l') := by
  induction grid generalizing point stocks f f' s l l' with
  | nil => exact .ok hl
  | cons t grid ih =>
    have hstart := evaluate_sameBut hunread hf t stocks
    cases grid with
    | nil => exact hstart.bind fun g g' hg ↦ .ok (hl.record point hg)
    | cons next grid =>
      refine hstart.bind fun g g' hg ↦ ?_
      obtain ⟨w, w', s', stepped, he, he', hw⟩ :=
        RungeKutta.stepWith_same (rate_sameBut hunread hk) hg s t (next - t) stocks
      dsimp only
      rw [he, he']
      cases stepped with
      | error e => exact .error e
      | ok stocks' => exact ih (point + 1) stocks' hw s' (hl.record point hg)

end

end Model

end SystemDynamics
