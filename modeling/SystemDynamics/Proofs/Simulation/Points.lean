import SystemDynamics.Simulation.Grid

namespace SystemDynamics

theorem pairwise_map_range {β : Type} {f : Nat → β} {R : β → β → Prop} {n : Nat}
    (h : ∀ i j, i < j → j < n → R (f i) (f j)) : ((List.range n).map f).Pairwise R := by
  rw [List.pairwise_map]
  refine List.Pairwise.imp_of_mem ?_ List.pairwise_lt_range
  intro i j _ hj hij
  exact h i j hij (List.mem_range.mp hj)

namespace Grid

variable {α : Type} [GridArithmetic α] {start stop step : α} {limit count i : Nat} {grid : List α}

theorem build_eq_ok :
    build start stop step limit = .ok grid ↔ pointCount start stop step ≤ limit ∧
      points start stop step (pointCount start stop step) = grid := by
  simp only [build]
  split
  case isTrue h => simp [Nat.not_le.mpr h]
  case isFalse h => simp [Nat.not_lt.mp h]

theorem build_eq_error :
    build start stop step limit = .error count ↔
      limit < pointCount start stop step ∧ pointCount start stop step = count := by
  simp only [build]
  split
  case isTrue h => simp [h]
  case isFalse h => simp [h]

theorem length_points (start stop step : α) (count : Nat) :
    (points start stop step count).length = count - 1 + 1 := by
  simp [points]

theorem getElem?_points (hi : i < count - 1) :
    (points start stop step count)[i]? = some (start + GridArithmetic.ofNat i * step) := by
  rw [points, List.getElem?_append_left (by simpa using hi), List.getElem?_map,
    List.getElem?_range hi]
  rfl

theorem getLast?_points :
    (points start stop step count).getLast? = some (GridArithmetic.larger stop start) := by
  simp [points]

theorem dropLast_points : (points start stop step count).dropLast =
    (List.range (count - 1)).map fun i ↦ start + GridArithmetic.ofNat i * step := by
  rw [points, List.dropLast_concat]

section

variable (hgrid : build start stop step limit = .ok grid)

include hgrid

theorem length_of_build : grid.length = pointCount start stop step - 1 + 1 := by
  rw [← (build_eq_ok.mp hgrid).2, length_points]

theorem getElem_of_build (hi : i + 1 < grid.length) :
    grid[i] = start + GridArithmetic.ofNat i * step := by
  obtain ⟨-, rfl⟩ := build_eq_ok.mp hgrid
  rw [length_points] at hi
  exact (List.getElem_eq_iff _).mpr (getElem?_points (by omega))

theorem getElem_last_of_build (hi : i + 1 = grid.length) :
    grid[i] = GridArithmetic.larger stop start := by
  obtain ⟨-, rfl⟩ := build_eq_ok.mp hgrid
  have hlast : (points start stop step (pointCount start stop step)).getLast? =
      some (GridArithmetic.larger stop start) := getLast?_points
  rw [List.getLast?_eq_getElem?, ← hi, Nat.add_sub_cancel] at hlast
  exact (List.getElem_eq_iff _).mpr hlast

end

end Grid

end SystemDynamics
