import SystemDynamics.Simulation.Run
import SystemDynamics.Proofs.Simulation.Ledger
import SystemDynamics.Proofs.Simulation.Program

namespace SystemDynamics

namespace Ledger

def recordAll (l : Ledger) (records : List (Nat × Array Float)) : Ledger :=
  records.foldl (fun l e ↦ l.record e.1 e.2) l

/-- The values for a slot in the frames that were recorded at a point, in their order. A frame that
is too short has none. -/
def writes (records : List (Nat × Array Float)) (slot point : Nat) : List Float :=
  records.filterMap fun e ↦ if e.1 = point then e.2[slot]? else none

theorem writes_append (records : List (Nat × Array Float)) (e : Nat × Array Float)
    (slot point : Nat) : writes (records ++ [e]) slot point =
      writes records slot point ++ (if e.1 = point then e.2[slot]? else none).toList := by
  rw [writes, List.filterMap_append]
  congr 1

variable {slots points : Nat}

theorem HasShape.recordAll {l : Ledger} (hl : l.HasShape slots points)
    (records : List (Nat × Array Float)) : (l.recordAll records).HasShape slots points := by
  induction records generalizing l with
  | nil => exact hl
  | cons e records ih => exact ih (hl.record e.1 e.2)

/-- Each cell of a ledger holds the last value that a frame had for it, or zero if none had one. -/
structure HoldsLast (slots points : Nat) (records : List (Nat × Array Float)) (l : Ledger) : Prop
    extends l.HasShape slots points where
  cell (slot : Nat) (hs : slot < slots) (point : Nat) (hp : point < points) :
    (l.row slot)[point]? = some ((writes records slot point).getLastD 0)

theorem getElem?_row_recordAll (records : List (Nat × Array Float)) {slot point : Nat}
    (hs : slot < slots) (hp : point < points) :
    (((blank slots points).recordAll records).row slot)[point]? =
      some ((writes records slot point).getLastD 0) := by
  induction records using List.reverseRecOn with
  | nil => simp [recordAll, writes, blank, row, hs, hp]
  | append_singleton records e ih =>
    have hshape := (blank_hasShape slots points).recordAll records
    have hrow : slot < ((blank slots points).recordAll records).rows.size := by
      rw [hshape.size]
      exact hs
    have hlength := hshape.length slot hs
    rw [recordAll, List.foldl_append, List.foldl_cons, List.foldl_nil, ← recordAll,
      row_record hrow, writes_append]
    cases hx : e.2[slot]? with
    | none => simpa using ih
    | some x =>
      rw [Option.elim_some]
      by_cases hpoint : e.1 = point
      · subst hpoint
        rw [List.getElem?_set_self (hlength.symm ▸ hp)]
        simp
      · rw [List.getElem?_set_ne hpoint, ih]
        simp [hpoint]

theorem holdsLast_recordAll (slots points : Nat) (records : List (Nat × Array Float)) :
    ((blank slots points).recordAll records).HoldsLast slots points records where
  toHasShape := (blank_hasShape slots points).recordAll records
  cell _ hs _ hp := getElem?_row_recordAll records hs hp

/-- Gives up the row of a slot, and leaves an empty one. -/
def release (l : Ledger) (slot : Nat) : List Float × Ledger :=
  (l.row slot, { l with rows := l.rows.setIfInBounds slot #[] })

def releaseFrom : List String → Nat → Ledger → List (String × List Float) × Ledger
  | [], _, l => ([], l)
  | id :: ids, slot, l =>
    let (xs, l) := l.release slot
    let (rows, l) := releaseFrom ids (slot + 1) l
    ((id, xs) :: rows, l)

theorem row_release {l : Ledger} {slot other : Nat} (h : other ≠ slot) :
    (l.release slot).2.row other = l.row other := by
  rw [release, row, Array.getElem?_setIfInBounds_ne h.symm, row]

theorem row_releaseFrom (ids : List String) {first slot : Nat} {l : Ledger}
    (h : slot < first ∨ first + ids.length ≤ slot) :
    (releaseFrom ids first l).2.row slot = l.row slot := by
  induction ids generalizing first l with
  | nil => rfl
  | cons id ids ih =>
    rw [List.length_cons] at h
    rw [releaseFrom]
    exact (ih (by omega)).trans (row_release (by omega))

theorem releaseFrom_fst (ids : List String) (first : Nat) (l : Ledger) :
    (releaseFrom ids first l).1 = (ids.zipIdx first).map fun p ↦ (p.1, l.row p.2) := by
  induction ids generalizing first l with
  | nil => rfl
  | cons id ids ih =>
    rw [List.zipIdx_cons, List.map_cons, releaseFrom]
    dsimp only
    rw [ih]
    refine congrArg _ (List.map_congr_left fun p hp ↦ ?_)
    have hle := (List.mem_zipIdx hp).1
    rw [row_release (show p.2 ≠ first by omega)]

theorem ofList_releaseFrom {ids : List String} {first : Nat} {l l' : Ledger}
    (h : ∀ slot, first ≤ slot → slot < first + ids.length → l'.row slot = l.row slot) :
    NameMap.ofList (releaseFrom ids first l').1 = l.series first ids := by
  rw [releaseFrom_fst, series, List.zipIdx_eq_map_add, List.map_map]
  refine congrArg _ (List.map_congr_left fun (id, i) hp ↦ ?_)
  have hlt := (List.mem_zipIdx hp).2.1
  exact congrArg (id, ·) (h (first + i) (by omega) (by omega))

end Ledger

namespace Layout

variable {layout : Layout} {l : Ledger}

/-- The rows of a ledger by the ids that their slots belong to, given up one after the other: those
of the stocks, the flows and the auxiliaries, and last that of the time. -/
def unload (layout : Layout) (l : Ledger) (settings : RunSettings) : Trajectory :=
  let (stocks, l) := l.releaseFrom layout.stocks firstStock
  let (flows, l) := l.releaseFrom layout.flows layout.firstFlow
  let (auxiliaries, l) := l.releaseFrom layout.auxiliaries layout.firstAuxiliary
  let (time, _) := l.release 0
  ⟨time, .ofList stocks, .ofList flows, .ofList auxiliaries, settings⟩

/-- No row is given up twice. -/
theorem unload_eq (layout : Layout) (l : Ledger) (settings : RunSettings) :
    layout.unload l settings = layout.trajectory l settings := by
  have hparameter : layout.firstParameter = firstStock + layout.stocks.length := rfl
  have hauxiliary : layout.firstAuxiliary = layout.firstParameter + layout.parameters.length := rfl
  have hflow : layout.firstFlow = layout.firstAuxiliary + layout.auxiliaries.length := rfl
  let l₁ := (l.releaseFrom layout.stocks firstStock).2
  let l₂ := (l₁.releaseFrom layout.flows layout.firstFlow).2
  let l₃ := (l₂.releaseFrom layout.auxiliaries layout.firstAuxiliary).2
  have h₁ : ∀ slot, slot < firstStock ∨ layout.firstParameter ≤ slot → l₁.row slot = l.row slot :=
    fun slot h ↦ Ledger.row_releaseFrom layout.stocks h
  have h₂ : ∀ slot, slot < firstStock ∨ layout.firstParameter ≤ slot ∧ slot < layout.firstFlow →
      l₂.row slot = l.row slot := fun slot h ↦
    (Ledger.row_releaseFrom layout.flows (.inl (by omega))).trans (h₁ slot (by omega))
  have h₃ : l₃.row 0 = l.row 0 := by
    have htime : 0 < firstStock := Nat.one_pos
    exact (Ledger.row_releaseFrom layout.auxiliaries (.inl (by omega))).trans (h₂ 0 (.inl htime))
  have hstocks : .ofList (l.releaseFrom layout.stocks firstStock).1 =
      l.series firstStock layout.stocks := Ledger.ofList_releaseFrom fun _ _ _ ↦ rfl
  have hflows : .ofList (l₁.releaseFrom layout.flows layout.firstFlow).1 =
      l.series layout.firstFlow layout.flows :=
    Ledger.ofList_releaseFrom fun slot hle _ ↦ h₁ slot (by omega)
  have hauxiliaries : .ofList (l₂.releaseFrom layout.auxiliaries layout.firstAuxiliary).1 =
      l.series layout.firstAuxiliary layout.auxiliaries :=
    Ledger.ofList_releaseFrom fun slot hle hlt ↦ h₂ slot (by omega)
  rw [trajectory, ← hstocks, ← hflows, ← hauxiliaries, ← h₃]
  rfl

/-- A map has the rows of the slots from `first` to `last`, each under the name of its slot, and no
others. -/
structure Delivers (layout : Layout) (l : Ledger) (first last : Nat)
    (m : NameMap (List Float)) : Prop where
  row (slot : Nat) (id : String) (hid : layout.names[slot]? = some id) (hfirst : first ≤ slot)
    (hlast : slot < last) : ∃ row, l.rows[slot]? = some row ∧ m.find? id = some row.toList
  names (id : String) : id ∈ m.names ↔
    ∃ slot, first ≤ slot ∧ slot < last ∧ layout.names[slot]? = some id

theorem IsSection.delivers {ids : List String} {first last : Nat}
    (h : layout.IsSection ids first last) (hnames : layout.names.Nodup)
    (hl : l.rows.size = layout.size) : layout.Delivers l first last (l.series first ids) := by
  have hids : ids.Nodup := by
    obtain ⟨before, after, heq, -⟩ := h.names
    rw [heq] at hnames
    exact hnames.of_append_right.of_append_left
  constructor
  case row =>
    intro slot id hid hfirst hlast
    have hi : slot - first < ids.length := by
      have hend := h.last
      omega
    have hslot : slot < l.rows.size := hl ▸ (List.getElem?_eq_some_iff.mp hid).1
    have hat := h.getElem?_names hi
    rw [Nat.add_sub_cancel' hfirst, hid] at hat
    have hfind : (l.series first ids).find? id = some (l.row (first + (slot - first))) :=
      Ledger.find?_series hids hat.symm
    rw [Nat.add_sub_cancel' hfirst, Ledger.row_of_lt hslot] at hfind
    exact ⟨_, Array.getElem?_eq_getElem hslot, hfind⟩
  case names =>
    intro id
    rw [(Ledger.names_series_perm hids).mem_iff, List.mem_iff_getElem?]
    constructor
    · intro hid
      obtain ⟨i, hi⟩ := hid
      have hlt := (List.getElem?_eq_some_iff.mp hi).1
      exact ⟨first + i, Nat.le_add_right _ _, h.last ▸ Nat.add_lt_add_left hlt first,
        (h.getElem?_names hlt).trans hi⟩
    · intro hid
      obtain ⟨slot, hfirst, hlast, hat⟩ := hid
      have hend := h.last
      have hi := h.getElem?_names (i := slot - first) (by omega)
      rw [Nat.add_sub_cancel' hfirst, hat] at hi
      exact ⟨slot - first, hi.symm⟩

/-- The series of a trajectory are the rows of a ledger, each under the name of its slot. -/
structure DeliversAll (layout : Layout) (l : Ledger) (r : Trajectory) : Prop where
  time : ∃ row, l.rows[0]? = some row ∧ r.time = row.toList
  stocks : layout.Delivers l firstStock layout.firstParameter r.stocks
  auxiliaries : layout.Delivers l layout.firstAuxiliary layout.firstFlow r.auxiliaries
  flows : layout.Delivers l layout.firstFlow layout.size r.flows

end Layout

/-- Whatever frames are recorded, each cell holds the last value that one had for it, or zero, and
the ledger keeps its shape. The rows that a ledger gives up one after the other are those of the
trajectory, in which each name has the row of its own slot. -/
theorem recorded_rows_delivered (slots points : Nat) (records : List (Nat × Array Float))
    (layout : Layout) (hnames : layout.names.Nodup) (l : Ledger)
    (hl : l.rows.size = layout.size) (settings : RunSettings) :
    ((Ledger.blank slots points).recordAll records).HoldsLast slots points records ∧
      layout.unload l settings = layout.trajectory l settings ∧
      layout.DeliversAll l (layout.trajectory l settings) := by
  have htime : 0 < l.rows.size := by
    rw [hl]
    exact Nat.zero_lt_succ _
  refine ⟨Ledger.holdsLast_recordAll slots points records, layout.unload_eq l settings, ?_⟩
  exact {
    time := ⟨_, Array.getElem?_eq_getElem htime, Ledger.row_of_lt htime⟩
    stocks := layout.isSection_stocks.delivers hnames hl
    auxiliaries := layout.isSection_auxiliaries.delivers hnames hl
    flows := layout.isSection_flows.delivers hnames hl }

/-- Two frames of a point, of which the later is cut short, and one that is longer than there are
slots. -/
def patchyRecords : List (Nat × Array Float) :=
  [(0, #[0, 10, 0.5, 5]), (1, #[1, 15, 0.5, 7.5, 9]), (0, #[2, 20])]

theorem recorded_rows_delivered_patchy :
    let layout : Layout := ⟨["savings"], ["rate"], [], ["interest"]⟩
    let l := (Ledger.blank 4 2).recordAll patchyRecords
    let settings : RunSettings := ⟨"Savings", .empty, .unsaid⟩
    layout.names.Nodup ∧ l.rows.size = layout.size ∧ l.HoldsLast 4 2 patchyRecords ∧
      layout.unload l settings = layout.trajectory l settings ∧
      layout.DeliversAll l (layout.trajectory l settings) ∧
      (layout.trajectory l settings).stocks.find? "savings" = some [20, 15] ∧
      (layout.trajectory l settings).flows.find? "interest" = some [5, 7.5] := by
  intro layout l settings
  have hnames : layout.names.Nodup := by decide
  have hl : l.rows.size = layout.size := by decide +kernel
  obtain ⟨hholds, hunload, hdelivers⟩ :=
    recorded_rows_delivered 4 2 patchyRecords layout hnames l hl settings
  exact ⟨hnames, hl, hholds, hunload, hdelivers, by decide +kernel, by decide +kernel⟩

end SystemDynamics
