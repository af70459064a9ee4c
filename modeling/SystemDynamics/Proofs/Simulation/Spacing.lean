import Mathlib.Algebra.Order.Floor.Ring
import Mathlib.Data.Rat.Floor
import Mathlib.Tactic.FieldSimp
import Mathlib.Tactic.Linarith
import SystemDynamics.Proofs.Simulation.Points

namespace SystemDynamics.Grid

/-- Of a horizon that is so many step lengths long, so many steps are counted. Before the last step
there is room for half of one, or for what the tolerance leaves to be counted. -/
structure Counted (ratio : ℚ) (n : ℕ) : Prop where
  pos : 0 < n
  before : n - 1 < ratio
  room : n = 1 ∨ 1 / 2 ≤ ratio - (n - 1) ∨ ratio * 2 ^ (-30 : ℤ) ≤ ratio - (n - 1)
  near : ratio - 1 / 2 ≤ n

section

variable {ratio : ℚ} (hratio : 0 < ratio)

include hratio

theorem nearest_nonneg : 0 ≤ ⌊ratio + 1 / 2⌋ := by positivity

theorem counted_nearest : ∃ n : ℕ, max (⌊ratio + 1 / 2⌋ : ℚ) 1 = n ∧ Counted ratio n := by
  obtain ⟨n, hn⟩ := Int.eq_ofNat_of_zero_le (nearest_nonneg hratio)
  have hlow := Int.floor_le (ratio + 1 / 2)
  have hhigh := Int.lt_floor_add_one (ratio + 1 / 2)
  rw [hn, Int.cast_natCast] at hlow hhigh
  rw [hn, Int.cast_natCast]
  rcases n.eq_zero_or_pos with rfl | hpos
  · refine ⟨1, by simp, one_pos, by simpa using hratio, .inl rfl, ?_⟩
    rw [Nat.cast_zero] at hhigh
    push_cast
    linarith
  · have hone : (1 : ℚ) ≤ n := by exact_mod_cast hpos
    exact ⟨n, max_eq_left hone, hpos, by linarith, .inr (.inl (by linarith)), by linarith⟩

theorem counted_ceil (hfar : ratio * 2 ^ (-30 : ℤ) ≤ |ratio - ⌊ratio + 1 / 2⌋|) :
    ∃ n : ℕ, (⌈ratio⌉ : ℚ) = n ∧ Counted ratio n := by
  obtain ⟨n, hn⟩ := Int.eq_ofNat_of_zero_le (Int.ceil_nonneg hratio.le)
  have hpos := Int.ceil_pos.mpr hratio
  have hlow := Int.ceil_lt_add_one ratio
  have hhigh := Int.le_ceil ratio
  have hnearest := Int.floor_le (ratio + 1 / 2)
  have hnearest' := Int.lt_floor_add_one (ratio + 1 / 2)
  rw [hn] at hpos hlow hhigh
  rw [Int.cast_natCast] at hlow hhigh
  refine ⟨n, by rw [hn, Int.cast_natCast], by omega, by linarith, .inr ?_, by linarith⟩
  -- The nearest whole number is the ceiling itself, or the one before it.
  have hcases : (n : ℤ) - 1 ≤ ⌊ratio + 1 / 2⌋ := by
    rw [Int.le_floor]
    push_cast
    linarith
  rcases hcases.eq_or_lt with hbefore | hsame
  · right
    rw [← hbefore] at hfar
    push_cast at hfar
    rwa [abs_of_pos (by linarith)] at hfar
  · left
    have : (n : ℚ) ≤ ⌊ratio + 1 / 2⌋ := by exact_mod_cast (by omega : (n : ℤ) ≤ ⌊ratio + 1 / 2⌋)
    linarith

end

/-- The nearest whole number, a half going away from zero. -/
def awayRound (q : ℚ) : ℤ :=
  if 0 ≤ q then ⌊q + 1 / 2⌋ else ⌈q - 1 / 2⌉

/-- Exact arithmetic, in which nothing but the number of steps is rounded. -/
local instance exactArithmetic : GridArithmetic ℚ where
  decidableLT := inferInstance
  decidableLE := inferInstance
  ofNat n := n
  abs q := |q|
  larger := max
  ceil q := ⌈q⌉
  round q := awayRound q
  toNat q := ⌊q⌋.toNat

/-- What the end may lie beyond the last step and still be counted as reached by it. -/
def tolerance (start stop step : ℚ) : ℚ :=
  1e-9 * max (stop - start) step

/-- A grid that leads from the start to the end, by steps of one length but for the last. -/
structure Even (start stop step : ℚ) (grid : List ℚ) : Prop where
  first : grid.head? = some start
  last : grid.getLast? = some stop
  apart : ∀ i (_ : i + 2 < grid.length), grid[i + 1] - grid[i] = step
  left : ∀ i (_ : i + 2 = grid.length), 0 < grid[i + 1] - grid[i]

/-- A grid on which no step is missing, but for one within the tolerance of the end. -/
structure Complete (start stop step : ℚ) (grid : List ℚ) : Prop where
  near : ∀ i (_ : i + 2 = grid.length),
    grid[i + 1] - grid[i] ≤ step + tolerance start stop step
  regular : ∀ i : ℕ, start + i * step < stop - tolerance start stop step →
    start + i * step ∈ grid

variable {start stop step : ℚ} {limit : ℕ} {grid : List ℚ}

theorem awayRound_of_nonneg {q : ℚ} (hq : 0 ≤ q) : awayRound q = ⌊q + 1 / 2⌋ :=
  if_pos hq

/-- The steps are the last that begin before the end, up to the tolerance. -/
theorem exists_steps {q : ℚ} (hq : 0 < q) :
    ∃ n : ℕ, 0 < n ∧
      (if |q - awayRound q| ≤ 1e-9 * max q 1 then max (awayRound q : ℚ) 1 else ⌈q⌉) = n ∧
      n - 1 < q ∧ q ≤ n + 1e-9 * max q 1 := by
  rw [awayRound_of_nonneg hq.le]
  split_ifs with hnear
  case pos =>
    obtain ⟨n, hn, hcounted⟩ := counted_nearest hq
    have hle : (⌊q + 1 / 2⌋ : ℚ) ≤ n := (le_max_left _ _).trans_eq hn
    have hwithin := (abs_le.mp hnear).2
    exact ⟨n, hcounted.pos, hn, hcounted.before, by linarith⟩
  case neg =>
    have hfar : q * 2 ^ (-30 : ℤ) ≤ |q - ⌊q + 1 / 2⌋| := by
      have hlarge := le_max_left q 1
      have hless := not_le.mp hnear
      norm_num at hless ⊢
      linarith
    obtain ⟨n, hn, hcounted⟩ := counted_ceil hq hfar
    have hle := (Int.le_ceil q).trans_eq hn
    have hallowed : 0 ≤ 1e-9 * max q 1 := by positivity
    exact ⟨n, hcounted.pos, hn, hcounted.before, by linarith⟩

section

variable (hlater : start < stop) (hpos : 0 < step)

include hlater hpos

theorem steps_bounds : ∃ n : ℕ, 0 < n ∧ steps start stop step = n ∧
    (n - 1) * step < stop - start ∧ stop - start ≤ n * step + tolerance start stop step := by
  obtain ⟨n, hn, hsteps, hlow, hhigh⟩ := exists_steps (div_pos (sub_pos.mpr hlater) hpos)
  have hspan : stop - start = (stop - start) / step * step := (div_mul_cancel₀ _ hpos.ne').symm
  have htolerance : tolerance start stop step = 1e-9 * max ((stop - start) / step) 1 * step := by
    rw [tolerance, mul_assoc, max_mul_of_nonneg _ _ hpos.le, one_mul, ← hspan]
  refine ⟨n, hn, ?_, ?_, ?_⟩
  · rw [← hsteps, steps]
    norm_num [GridArithmetic.round, GridArithmetic.abs, GridArithmetic.larger, GridArithmetic.ceil]
  · exact (mul_lt_mul_of_pos_right hlow hpos).trans_eq hspan.symm
  · rw [htolerance, ← add_mul]
    exact hspan.trans_le (mul_le_mul_of_nonneg_right hhigh hpos.le)

/-- There are as many points as steps, and one; but no more than there is a name for. -/
theorem pointCount_eq {n : ℕ} (hn : steps start stop step = n) :
    pointCount start stop step = if 2 ^ 64 ≤ n then mostPoints else n + 1 := by
  have hspan : (0.0 : ℚ) < stop - start ∧ (0.0 : ℚ) < step := by
    norm_num
    exact ⟨hlater, hpos⟩
  have hlarge : (GridArithmetic.ofNat (Nat.pow 2 64) : ℚ) ≤ n ↔ 2 ^ 64 ≤ n := by
    change ((2 ^ 64 : ℕ) : ℚ) ≤ n ↔ _
    exact Nat.cast_le
  rw [pointCount, if_pos hspan, hn]
  simp only [hlarge]
  change (if _ then _ else ⌊(n : ℚ)⌋.toNat + 1) = _
  rw [Int.floor_natCast, Int.toNat_natCast]

theorem regular_before {n : ℕ} (hn : steps start stop step = n) {i : ℕ}
    (hi : i < pointCount start stop step - 1) : start + i * step < stop := by
  obtain ⟨n', -, hsteps, hbefore, -⟩ := steps_bounds hlater hpos
  obtain rfl : n' = n := by exact_mod_cast hsteps.symm.trans hn
  have hle : i + 1 ≤ n' := by
    rw [pointCount_eq hlater hpos hn] at hi
    split_ifs at hi with hlarge
    · rw [mostPoints, Nat.pow_eq] at hi
      omega
    · omega
  have hle' : (i : ℚ) ≤ n' - 1 := by
    rw [le_sub_iff_add_le]
    exact_mod_cast hle
  have := mul_le_mul_of_nonneg_right hle' hpos.le
  linarith

theorem two_le_pointCount : 2 ≤ pointCount start stop step := by
  obtain ⟨n, hn, hsteps, -, -⟩ := steps_bounds hlater hpos
  rw [pointCount_eq hlater hpos hsteps]
  split_ifs
  · decide
  · omega

end

theorem regular_eq (hgrid : build start stop step limit = .ok grid) {i : ℕ}
    (hi : i + 1 < grid.length) : grid[i] = start + i * step :=
  getElem_of_build hgrid hi

theorem last_eq (hlater : start < stop) (hgrid : build start stop step limit = .ok grid) {i : ℕ}
    (hi : i + 1 = grid.length) : grid[i] = stop :=
  (getElem_last_of_build hgrid hi).trans (max_eq_left hlater.le)

section

variable (hlater : start < stop) (hpos : 0 < step)
  (hgrid : build start stop step limit = .ok grid)

include hlater hpos hgrid

theorem length_eq : grid.length = pointCount start stop step := by
  have htwo := two_le_pointCount hlater hpos
  have hlength := length_of_build hgrid
  omega

theorem even_of_build : Even start stop step grid := by
  obtain ⟨n, -, hsteps, -⟩ := steps_bounds hlater hpos
  have hlength := length_eq hlater hpos hgrid
  have htwo := two_le_pointCount hlater hpos
  constructor
  case first =>
    have hfirst := regular_eq hgrid (by omega : 0 + 1 < grid.length)
    rw [List.head?_eq_getElem?, List.getElem?_eq_getElem (by omega), hfirst]
    simp
  case last =>
    have hlast := last_eq hlater hgrid (by omega : grid.length - 1 + 1 = grid.length)
    rw [List.getLast?_eq_getElem?, List.getElem?_eq_getElem (by omega), hlast]
  case apart =>
    intro i hi
    rw [regular_eq hgrid hi, regular_eq hgrid (by omega)]
    push_cast
    ring
  case left =>
    intro i hi
    rw [last_eq hlater hgrid hi, regular_eq hgrid (by omega), sub_pos]
    exact regular_before hlater hpos hsteps (by omega)

/-- A step is missing unless the regular points come near to the end. -/
theorem complete_iff_near : Complete start stop step grid ↔
    stop - start ≤ (grid.length - 1) * step + tolerance start stop step := by
  have htwo := two_le_pointCount hlater hpos
  rw [← length_eq hlater hpos hgrid] at htwo
  obtain ⟨k, hk⟩ := Nat.exists_eq_add_of_le' htwo
  have hlast : grid[k + 1] - grid[k] = stop - start - k * step := by
    rw [last_eq hlater hgrid hk.symm, regular_eq hgrid (by omega)]
    ring
  have hcount : (grid.length : ℚ) - 1 = k + 1 := by
    rw [hk]
    push_cast
    ring
  rw [hcount]
  constructor
  · intro hcomplete
    have hnear := hcomplete.near k hk.symm
    rw [hlast] at hnear
    linarith
  · intro hnear
    constructor
    case near =>
      intro i hi
      obtain rfl : i = k := by omega
      rw [hlast]
      linarith
    case regular =>
      intro i hi
      have hi' : i < k + 1 := by
        by_contra hle
        have hle' : (k : ℚ) + 1 ≤ i := by exact_mod_cast not_lt.mp hle
        have := mul_le_mul_of_nonneg_right hle' hpos.le
        linarith
      rw [← regular_eq hgrid (by omega : i + 1 < grid.length)]
      exact List.getElem_mem _

theorem complete_iff : Complete start stop step grid ↔
    steps start stop step < 2 ^ 64 ∨
      stop - start ≤ (mostPoints - 1) * step + tolerance start stop step := by
  obtain ⟨n, -, hsteps, -, hnear⟩ := steps_bounds hlater hpos
  rw [complete_iff_near hlater hpos hgrid, length_eq hlater hpos hgrid,
    pointCount_eq hlater hpos hsteps, hsteps]
  by_cases hlarge : 2 ^ 64 ≤ n
  case pos =>
    have hlarge' : (2 ^ 64 : ℚ) ≤ n := by exact_mod_cast hlarge
    rw [if_pos hlarge, or_iff_right (not_lt.mpr hlarge')]
  case neg =>
    have hfew : (n : ℚ) < 2 ^ 64 := by exact_mod_cast not_le.mp hlarge
    rw [if_neg hlarge, Nat.cast_succ, add_sub_cancel_right]
    exact iff_of_true hnear (.inl hfew)

theorem few_steps_of_limit (hlimit : limit < mostPoints) : steps start stop step < 2 ^ 64 := by
  obtain ⟨n, -, hsteps, -, -⟩ := steps_bounds hlater hpos
  have hcount := (build_eq_ok.mp hgrid).1
  rw [pointCount_eq hlater hpos hsteps] at hcount
  have hfew : n < 2 ^ 64 := by
    by_contra hlarge
    rw [if_pos (not_lt.mp hlarge)] at hcount
    omega
  rw [hsteps]
  exact_mod_cast hfew

end

/-- A grid laid out exactly has steps of one length, but for the last, which is positive. That one
is longer than the others by no more than the tolerance and no other is missing, under every limit
but the largest; and under that one as long as the steps are fewer than there are names for, or the
points that have names come near enough to the end. -/
theorem exact_grid_evenly_spaced (hlater : start < stop) (hpos : 0 < step)
    (hgrid : build start stop step limit = .ok grid) :
    Even start stop step grid ∧ (limit < mostPoints → Complete start stop step grid) ∧
      (Complete start stop step grid ↔ steps start stop step < 2 ^ 64 ∨
        stop - start ≤ (mostPoints - 1) * step + tolerance start stop step) := by
  have hcomplete := complete_iff hlater hpos hgrid
  refine ⟨even_of_build hlater hpos hgrid, ?_, hcomplete⟩
  intro hlimit
  exact hcomplete.mpr (.inl (few_steps_of_limit hlater hpos hgrid hlimit))

theorem exact_grid_evenly_spaced_short : Even 0 1 (3 / 10) [0, 3 / 10, 6 / 10, 9 / 10, 1] ∧
    Complete 0 1 (3 / 10) [0, 3 / 10, 6 / 10, 9 / 10, 1] := by
  have hgrid : build 0 1 (3 / 10 : ℚ) 10 = .ok [0, 3 / 10, 6 / 10, 9 / 10, 1] := by
    decide +kernel
  obtain ⟨heven, hcomplete, -⟩ := exact_grid_evenly_spaced (by norm_num) (by norm_num) hgrid
  exact ⟨heven, hcomplete (by decide)⟩

/-- Twice as many steps as there are names for numbers of points: the largest limit lets the grid
pass, and its last step skips the half of them. -/
theorem exact_grid_cut_short : ∃ grid : List ℚ, build 0 (2 ^ 65) 1 mostPoints = .ok grid ∧
    ¬ Complete 0 (2 ^ 65) 1 grid := by
  have hlater : (0 : ℚ) < 2 ^ 65 := by positivity
  have htolerance : tolerance 0 (2 ^ 65) 1 = 1e-9 * 2 ^ 65 := by norm_num [tolerance]
  have hmost : (mostPoints : ℚ) = 2 ^ 64 - 1 := by norm_num [mostPoints]
  obtain ⟨n, -, hsteps, -, hnear⟩ := steps_bounds hlater one_pos
  rw [htolerance] at hnear
  have hlarge : (2 ^ 64 : ℚ) ≤ n := by
    norm_num at hnear
    linarith
  have hcount : pointCount (0 : ℚ) (2 ^ 65) 1 = mostPoints := by
    rw [pointCount_eq hlater one_pos hsteps, if_pos (by exact_mod_cast hlarge)]
  refine ⟨_, build_eq_ok.mpr ⟨hcount.le, rfl⟩, ?_⟩
  rw [complete_iff hlater one_pos (build_eq_ok.mpr ⟨hcount.le, rfl⟩), htolerance, hmost, hsteps]
  norm_num
  exact_mod_cast hlarge

end SystemDynamics.Grid
