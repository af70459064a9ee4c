import SystemDynamics.Simulation.Trajectory
import SystemDynamics.Proofs.NameMap

namespace SystemDynamics

namespace Ledger

theorem getElem?_foldl_modify (xs : List Float) (first point : Nat) (rows : Array (Array Float))
    (slot : Nat) :
    ((xs.zipIdx first).foldl
        (fun rows (x, s) ↦ rows.modify s (·.setIfInBounds point x)) rows)[slot]? =
      if first ≤ slot then
        match xs[slot - first]? with
        | some x => rows[slot]?.map (·.setIfInBounds point x)
        | none => rows[slot]?
      else rows[slot]? := by
  induction xs generalizing first rows with
  | nil => simp
  | cons x xs ih =>
    rw [List.zipIdx_cons, List.foldl_cons, ih, Array.getElem?_modify]
    by_cases hslot : slot = first
    · subst hslot
      rw [if_neg (by omega), if_pos rfl, if_pos (Nat.le_refl _), Nat.sub_self]
      rfl
    · rw [if_neg (show ¬ first = slot by omega)]
      by_cases hlt : first + 1 ≤ slot
      · rw [if_pos hlt, if_pos (by omega), show slot - first = slot - (first + 1) + 1 by omega]
        rfl
      · rw [if_neg hlt, if_neg (by omega)]

structure HasShape (slots points : Nat) (l : Ledger) : Prop where
  size : l.rows.size = slots
  length : ∀ slot < slots, (l.row slot).length = points

theorem row_of_lt {l : Ledger} {slot : Nat} (h : slot < l.rows.size) :
    l.row slot = l.rows[slot].toList := by
  rw [row, Array.getElem?_eq_getElem h]
  rfl

theorem blank_hasShape (slots points : Nat) : (blank slots points).HasShape slots points where
  size := by simp [blank]
  length slot h := by simp [blank, row, h]

theorem row_record {l : Ledger} {slot : Nat} (hs : slot < l.rows.size) (point : Nat)
    (frame : Array Float) :
    (l.record point frame).row slot =
      (frame[slot]?).elim (l.row slot) ((l.row slot).set point) := by
  rw [row_of_lt hs, row, record, getElem?_foldl_modify, if_pos (Nat.zero_le _), Nat.sub_zero,
    Array.getElem?_toList, Array.getElem?_eq_getElem hs]
  cases frame[slot]? with
  | none => rfl
  | some x => simp

theorem size_foldl_modify (pairs : List (Float × Nat)) (point : Nat)
    (rows : Array (Array Float)) :
    (pairs.foldl (fun rows (x, s) ↦ rows.modify s (·.setIfInBounds point x)) rows).size =
      rows.size := by
  induction pairs generalizing rows with
  | nil => rfl
  | cons e pairs ih => rw [List.foldl_cons, ih, Array.size_modify]

theorem HasShape.record {l : Ledger} {slots points : Nat} (hl : l.HasShape slots points)
    (point : Nat) (frame : Array Float) : (l.record point frame).HasShape slots points where
  size := by rw [Ledger.record, size_foldl_modify, hl.size]
  length slot hs := by
    rw [row_record (hl.size ▸ hs)]
    cases frame[slot]? with
    | none => exact hl.length slot hs
    | some x => exact List.length_set.trans (hl.length slot hs)

theorem take_row_record {l : Ledger} {slots points : Nat} (hl : l.HasShape slots points)
    {point : Nat} (hp : point < points) {frame : Array Float} (hf : frame.size = slots)
    {slot : Nat} (hs : slot < slots) :
    ((l.record point frame).row slot).take (point + 1) =
      (l.row slot).take point ++ [frame.getD slot 0] := by
  have hx : frame[slot]? = some (frame.getD slot 0) := by simp [Array.getD, hf, hs]
  have hlt : point < ((l.row slot).set point (frame.getD slot 0)).length := by
    rw [List.length_set, hl.length slot hs]
    exact hp
  rw [row_record (hl.size ▸ hs), hx, Option.elim_some, List.take_succ_eq_append_getElem hlt,
    List.getElem_set_self, List.take_set_of_le (Nat.le_refl _)]

theorem find?_series {l : Ledger} {first i : Nat} {ids : List String} (h : ids.Nodup) {id : String}
    (hi : ids[i]? = some id) : (l.series first ids).find? id = some (l.row (first + i)) := by
  refine NameMap.find?_ofList_of_mem ?_ ?_
  · simpa [List.map_map, Function.comp_def, List.zipIdx_map_fst] using h
  · exact List.mem_map.mpr ⟨(id, i), List.mem_zipIdx_iff_getElem?.mpr hi, rfl⟩

theorem names_series_perm {l : Ledger} {first : Nat} {ids : List String} (h : ids.Nodup) :
    (l.series first ids).names.Perm ids := by
  have hnames : (ids.zipIdx.map fun p ↦ (p.1, l.row (first + p.2))).map (·.1) = ids := by
    simp [List.map_map, Function.comp_def, List.zipIdx_map_fst]
  have hperm := NameMap.names_ofList_perm (hnames.symm ▸ h)
  rwa [hnames] at hperm

end Ledger

end SystemDynamics
