import SystemDynamics.Proofs.Simulation.Counting
import SystemDynamics.Proofs.Simulation.Points

namespace SystemDynamics.Grid

open Number (HasValue grain toDouble toDouble_mono)
open Validation (timeBounds)

structure Resolved (start stop step : ℚ) : Prop where
  step : 8 * 2 ^ grain stop ≤ step
  span : 2 ^ 33 * 2 ^ grain stop ≤ stop - start

section

variable {start step : ℚ}

theorem position_mono (hstep : 0 ≤ step) : Monotone (position start step) := by
  intro i j hij
  have hcount : toDouble i ≤ toDouble j := toDouble_mono (by exact_mod_cast hij)
  exact toDouble_mono (add_le_add_right
    (toDouble_mono (mul_le_mul_of_nonneg_right hcount hstep)) start)

theorem position_zero (hstart : toDouble start = start) : position start step 0 = start := by
  rw [position, Nat.cast_zero, Number.toDouble_zero, zero_mul, Number.toDouble_zero, add_zero, hstart]

theorem ratio_mul_step (hpos : 0 < step) (hone : step ≤ 1) {span : ℚ} (hspan : 0 ≤ span) :
    |toDouble (span / step) * step - span| ≤ max (span * 2 ^ (-53 : ℤ)) (2 ^ (-1075 : ℤ)) := by
  have herror := Number.abs_toDouble_sub_le_max (span / step)
  have hscale : toDouble (span / step) * step - span =
      (toDouble (span / step) - span / step) * step := by
    rw [sub_mul, div_mul_cancel₀ _ hpos.ne']
  rw [hscale, abs_mul, abs_of_pos hpos]
  refine (mul_le_mul_of_nonneg_right herror hpos.le).trans ?_
  rw [max_mul_of_nonneg _ _ hpos.le, abs_of_nonneg (div_nonneg hspan hpos.le)]
  refine max_le_max (le_of_eq ?_) (mul_le_of_le_one_right (zpow_pos two_pos _).le hone)
  rw [mul_right_comm, div_mul_cancel₀ _ hpos.ne']

end

section

variable {h : Horizon} {start stop step : ℚ} (hb : h.Bounded start stop step) {n : ℕ}
  (hcounted : Counted (toDouble (toDouble (stop - start) / step)) n)

include hb hcounted

theorem passed_le_span (hone : 1 < n) (hn : n < 2 ^ 51) :
    (n - 1) * step ≤ toDouble (stop - start) * (1 - 2 ^ (-53 : ℤ)) := by
  have hspan := span_pos hb
  have hpos := hb.pos
  generalize toDouble (stop - start) = span at *
  have hone' : (1 : ℚ) ≤ n - 1 := by
    rw [le_sub_iff_add_le]
    exact_mod_cast hone
  have hn' : (n : ℚ) + 1 ≤ 2 ^ 51 := by exact_mod_cast hn
  have hbefore := hcounted.before
  -- There is a second step, so the quotient is a normal number.
  have hratio : 1 ≤ span / step := by
    by_contra hless
    have hle := toDouble_mono (not_le.mp hless).le
    have hexact := Number.toDouble_zpow (e := 0) (by norm_num)
    rw [zpow_zero] at hexact
    linarith
  have herror := (abs_le.mp (Number.abs_toDouble_sub_le_mul
    ((zpow_le_one_of_nonpos₀ one_le_two (by norm_num : (-1022 : ℤ) ≤ 0)).trans hratio))).2
  -- Half a step is two roundoffs of the quotient as long as it is at most `2 ^ 51`.
  have hroom : (n - 1 : ℚ) ≤ toDouble (span / step) * (1 - 2 ^ (-52 : ℤ)) := by
    have hnear := hcounted.near
    norm_num
    rcases hcounted.room with hfirst | hhalf | htolerance
    · exact absurd hfirst (by omega)
    · linarith
    · norm_num at htolerance
      linarith
  have hscaled : toDouble (span / step) * step ≤ span * (1 + 2 ^ (-53 : ℤ)) := by
    rw [sub_le_iff_le_add', ← mul_one_add] at herror
    refine (mul_le_mul_of_nonneg_right herror hpos.le).trans_eq ?_
    rw [mul_right_comm, div_mul_cancel₀ _ hpos.ne']
  calc (n - 1 : ℚ) * step ≤ toDouble (span / step) * (1 - 2 ^ (-52 : ℤ)) * step :=
        mul_le_mul_of_nonneg_right hroom hpos.le
    _ = toDouble (span / step) * step * (1 - 2 ^ (-52 : ℤ)) := mul_right_comm _ _ _
    _ ≤ span * (1 + 2 ^ (-53 : ℤ)) * (1 - 2 ^ (-52 : ℤ)) :=
        mul_le_mul_of_nonneg_right hscaled (by norm_num)
    _ = span * ((1 + 2 ^ (-53 : ℤ)) * (1 - 2 ^ (-52 : ℤ))) := mul_assoc _ _ _
    _ ≤ span * (1 - 2 ^ (-53 : ℤ)) := mul_le_mul_of_nonneg_left (by norm_num) hspan.le

/-- The last regular point is not after the end: the way to it, though rounded, stays within the exact
difference of the end and the start. -/
theorem position_le_stop (hn : n < 2 ^ 51) : position start step (n - 1) ≤ stop := by
  have hexact := hb.hasStop.toDouble_eq
  rcases (Nat.succ_le_of_lt hcounted.pos).eq_or_lt with hone | hone
  · rw [← hone, position_zero hb.hasStart.toDouble_eq]
    exact hb.later.le
  · have hpassed := Number.toDouble_le_of_part (granular_span hb) (sub_pos.mpr hb.later).le
      (passed_le_span hb hcounted hone hn)
    have hcast : ((n - 1 : ℕ) : ℚ) = n - 1 := by
      rw [Nat.cast_sub (by omega), Nat.cast_one]
    rw [position, Number.toDouble_natCast (by omega), hcast, ← hexact]
    exact toDouble_mono (by linarith)

end

section

variable {h : Horizon} {start stop step : ℚ} (hb : h.Bounded start stop step)
  (hresolved : Resolved start stop step) {i j n : ℕ}

include hb

theorem stop_lt_grain : stop < 2 ^ (grain stop + 53) := by
  have hlt := Number.abs_lt_grain stop
  rwa [abs_of_nonneg (hb.nonneg.trans hb.later.le)] at hlt

theorem stop_roundoff : stop * 2 ^ (-53 : ℤ) ≤ 2 ^ grain stop := by
  have hlt := stop_lt_grain hb
  refine (mul_le_mul_of_nonneg_right hlt.le (zpow_pos two_pos _).le).trans_eq ?_
  rw [← zpow_add₀ two_ne_zero, add_neg_cancel_right]

theorem ratio_mul_step_near :
    |toDouble (toDouble (stop - start) / step) * step - (stop - start)| ≤ 3 / 2 * 2 ^ grain stop := by
  have hlater := (sub_pos.mpr hb.later).le
  have hle : stop - start ≤ stop := sub_le_self stop hb.nonneg
  have hspan := Number.abs_toDouble_sub_le_of_le hlater hle
  have hspan_le := toDouble_mono hle
  rw [hb.hasStop.toDouble_eq] at hspan_le
  have hroundoff : max (toDouble (stop - start) * 2 ^ (-53 : ℤ)) (2 ^ (-1075 : ℤ)) ≤
      2 ^ grain stop := by
    refine max_le ?_ (zpow_le_zpow_right₀ one_le_two ?_)
    · exact (mul_le_mul_of_nonneg_right hspan_le (zpow_pos two_pos _).le).trans (stop_roundoff hb)
    · rw [grain]
      omega
  have hquotient :=
    (ratio_mul_step hb.pos hb.le_one (Number.toDouble_nonneg hlater)).trans hroundoff
  have htriangle := abs_sub_le (toDouble (toDouble (stop - start) / step) * step)
    (toDouble (stop - start)) (stop - start)
  linarith

theorem position_near (hi : i ≤ 2 ^ 53) (hbefore : start + i * step + 2 ^ grain stop ≤ stop) :
    |position start step i - (start + i * step)| ≤ 2 ^ grain stop := by
  have hnonneg := hb.nonneg
  have hpassed : 0 ≤ i * step := mul_nonneg (Nat.cast_nonneg i) hb.pos.le
  have hgrain : (0 : ℚ) < 2 ^ grain stop := zpow_pos two_pos _
  have hproduct := Number.abs_toDouble_sub_le_of_le hpassed (by linarith : i * step ≤ stop)
  obtain ⟨hlow, hhigh⟩ := abs_le.mp hproduct
  have hsum := Number.abs_toDouble_sub_le_of_le
    (add_nonneg hnonneg (Number.toDouble_nonneg hpassed))
    (by linarith : start + toDouble (i * step) ≤ stop)
  have htriangle := abs_sub_le (toDouble (start + toDouble (i * step)))
    (start + toDouble (i * step)) (start + i * step)
  rw [add_sub_add_left_eq_sub] at htriangle
  rw [position, Number.toDouble_natCast hi]
  linarith

include hresolved

theorem ratio_lt : toDouble (toDouble (stop - start) / step) < 2 ^ 51 := by
  have hnear := (abs_le.mp (ratio_mul_step_near hb)).2
  have hstep := hresolved.step
  have hnonneg := hb.nonneg
  have hgrain : (0 : ℚ) < 2 ^ grain stop := zpow_pos two_pos _
  have hlt := stop_lt_grain hb
  rw [add_comm, zpow_add₀ two_ne_zero] at hlt
  by_contra hlarge
  have hmany := mul_le_mul (not_lt.mp hlarge) hstep (by positivity) (ratio_pos hb).le
  generalize (2 : ℚ) ^ grain stop = u at *
  norm_num at hlt hmany
  linarith

/-- A step that is counted begins before the end by more than two roundings. -/
theorem passed_before_stop (hcounted : Counted (toDouble (toDouble (stop - start) / step)) n)
    (hi : i < n) : start + i * step + 5 / 2 * 2 ^ grain stop ≤ stop := by
  obtain ⟨hlow, hhigh⟩ := abs_le.mp (ratio_mul_step_near hb)
  have hpos := hb.pos
  have hgrain : (0 : ℚ) < 2 ^ grain stop := zpow_pos two_pos _
  obtain ⟨hstep, hspan⟩ := hresolved
  generalize (2 : ℚ) ^ grain stop = u at *
  generalize toDouble (toDouble (stop - start) / step) = ratio at *
  rcases (Nat.succ_le_of_lt hcounted.pos).eq_or_lt with hone | hone
  · obtain rfl : i = 0 := by omega
    rw [Nat.cast_zero, zero_mul]
    linarith
  · -- The room before the last step is half a step, or the tolerance of the whole horizon.
    have hroom : 4 * u ≤ (ratio - (n - 1)) * step := by
      rcases hcounted.room with hfirst | hhalf | htolerance
      · exact absurd hfirst (by omega)
      · have := mul_le_mul_of_nonneg_right hhalf hpos.le
        linarith
      · have := mul_le_mul_of_nonneg_right htolerance hpos.le
        rw [mul_right_comm] at this
        norm_num at this
        linarith
    have hlast : (i : ℚ) ≤ n - 1 := by
      rw [le_sub_iff_add_le]
      exact_mod_cast hi
    have := mul_le_mul_of_nonneg_right hlast hpos.le
    linarith

section

variable (hcounted : Counted (toDouble (toDouble (stop - start) / step)) n)

include hcounted

theorem index_le (hi : i < n) : i ≤ 2 ^ 53 := by
  have hbefore := hcounted.before.trans (ratio_lt hb hresolved)
  have hi' : (i : ℚ) + 1 ≤ n := by exact_mod_cast hi
  have hle : (i : ℚ) ≤ 2 ^ 53 := by linarith
  exact_mod_cast hle

theorem position_lt (hij : i < j) (hj : j < n) : position start step i < position start step j := by
  have hgrain : (0 : ℚ) < 2 ^ grain stop := zpow_pos two_pos _
  have hbefore := passed_before_stop hb hresolved hcounted (hij.trans hj)
  have hbefore' := passed_before_stop hb hresolved hcounted hj
  have hnear := position_near hb (index_le hb hresolved hcounted (hij.trans hj)) (by linarith)
  have hnear' := position_near hb (index_le hb hresolved hcounted hj) (by linarith)
  have hstep := hresolved.step
  have hone : (i : ℚ) + 1 ≤ j := by exact_mod_cast hij
  have hapart := mul_le_mul_of_nonneg_right hone hb.pos.le
  rw [add_mul, one_mul] at hapart
  linarith [(abs_le.mp hnear).2, (abs_le.mp hnear').1]

theorem position_lt_stop (hi : i < n) : position start step i < stop := by
  have hgrain : (0 : ℚ) < 2 ^ grain stop := zpow_pos two_pos _
  have hbefore := passed_before_stop hb hresolved hcounted hi
  have hnear := position_near hb (index_le hb hresolved hcounted hi) (by linarith)
  linarith [(abs_le.mp hnear).2]

end

end

theorem position_one {h : Horizon} {start stop step : ℚ} (hb : h.Bounded start stop step)
    (hpos : 0 < start) (hsmall : 2 * step < 2 ^ grain start) : position start step 1 = start := by
  rw [position, Number.toDouble_natCast (by norm_num), Nat.cast_one, one_mul,
    hb.hasStep.toDouble_eq]
  exact Number.toDouble_add_of_small hb.hasStart.toDouble_eq hpos hb.pos.le hsmall

/-- A grid over a horizon whose numbers have these values. -/
structure Advances (h : Horizon) (start stop step : ℚ) (grid : List Float) : Prop where
  length : grid.length = pointCount h.start h.stop h.step
  two_le : 2 ≤ grid.length
  first : ∃ t, grid.head? = some t ∧ (t == h.start) = true
  last : grid.getLast? = some h.stop
  regular : grid.dropLast.Pairwise (· ≤ ·)
  ordered : grid.length ≤ 2 ^ 51 → grid.Pairwise (· ≤ ·)
  strict : Resolved start stop step → grid.Pairwise (· < ·)
  stalled : 0 < start → 2 * step < 2 ^ grain start → 2 < grid.length → ¬ grid.Pairwise (· < ·)

section

variable {h : Horizon} {start stop step : ℚ} (hb : h.Bounded start stop step)

include hb

theorem two_le_pointCount_of_bounded : 2 ≤ pointCount h.start h.stop h.step := by
  rcases pointCount_counted hb with ⟨hcount, -⟩ | ⟨n, -, hcount, hcounted⟩
  · rw [hcount]
    decide
  · have := hcounted.pos
    omega

theorem larger_eq_stop : Number.larger h.stop h.start = h.stop := by
  have hless : ¬ h.stop < h.start := by
    rw [Number.lt_iff hb.hasStop hb.hasStart]
    exact not_lt.mpr hb.later.le
  rw [Number.larger, hb.hasStop.isNaN, hb.hasStart.isNaN, if_neg (by simp), if_neg (by simp),
    if_neg hless]

variable {limit : ℕ} {grid : List Float}
  (hgrid : build h.start h.stop h.step limit = .ok grid)

include hgrid

theorem length_eq_pointCount : grid.length = pointCount h.start h.stop h.step := by
  have htwo := two_le_pointCount_of_bounded hb
  have hlength := length_of_build hgrid
  omega

section

variable {R : Float → Float → Prop} {r : ℚ → ℚ → Prop}
  (hvalues : ∀ {x y : Float} {p q : ℚ}, HasValue x p → HasValue y q → (R x y ↔ r p q))
  (hregular : ∀ i j, i < j → j < pointCount h.start h.stop h.step - 1 →
    r (position start step i) (position start step j))

include hvalues hregular

theorem pairwise_dropLast : grid.dropLast.Pairwise R := by
  have hmost := pointCount_le h.start h.stop h.step
  rw [← (build_eq_ok.mp hgrid).2, dropLast_points]
  refine pairwise_map_range ?_
  intro i j hij hj
  exact (hvalues (hasValue_point hb (by omega)) (hasValue_point hb (by omega))).mpr
    (hregular i j hij hj)

theorem pairwise_of_positions
    (hlast : ∀ i < pointCount h.start h.stop h.step - 1, r (position start step i) stop) :
    grid.Pairwise R := by
  have hmost := pointCount_le h.start h.stop h.step
  have hbefore := pairwise_dropLast hb hgrid hvalues hregular
  rw [← (build_eq_ok.mp hgrid).2, dropLast_points] at hbefore
  rw [← (build_eq_ok.mp hgrid).2, points, List.pairwise_append]
  refine ⟨hbefore, List.pairwise_singleton _ _, ?_⟩
  intro x hx y hy
  obtain ⟨i, hi, rfl⟩ := List.mem_map.mp hx
  rw [List.mem_range] at hi
  rw [List.mem_singleton.mp hy]
  change R _ (Number.larger h.stop h.start)
  rw [larger_eq_stop hb]
  exact (hvalues (hasValue_point hb (by omega)) hb.hasStop).mpr (hlast i hi)

end

theorem ordered_of_length (hfew : grid.length ≤ 2 ^ 51) : grid.Pairwise (· ≤ ·) := by
  rw [length_eq_pointCount hb hgrid] at hfew
  rcases pointCount_counted hb with ⟨hmost, -⟩ | ⟨n, -, hcount, hcounted⟩
  · rw [hmost, mostPoints] at hfew
    exact absurd hfew (by decide)
  refine pairwise_of_positions hb hgrid Number.le_iff ?_ ?_
  · intro i j hij _
    exact position_mono hb.pos.le hij.le
  · intro i hi
    exact (position_mono hb.pos.le (by omega)).trans (position_le_stop hb hcounted (by omega))

theorem strict_of_resolved (hresolved : Resolved start stop step) : grid.Pairwise (· < ·) := by
  rcases pointCount_counted hb with ⟨-, hlarge⟩ | ⟨n, hn, hcount, hcounted⟩
  · have hless := ratio_lt hb hresolved
    norm_num at hlarge
    linarith
  refine pairwise_of_positions hb hgrid Number.lt_iff ?_ ?_
  · intro i j hij hj
    exact position_lt hb hresolved hcounted hij (by omega)
  · intro i hi
    exact position_lt_stop hb hresolved hcounted (by omega)

theorem not_strict_of_stalled (hpos : 0 < start) (hsmall : 2 * step < 2 ^ grain start)
    (hlength : 2 < grid.length) : ¬ grid.Pairwise (· < ·) := by
  intro hstrict
  have hless := List.pairwise_iff_getElem.mp hstrict 0 1 (by omega) (by omega) one_pos
  rw [getElem_of_build hgrid (by omega), getElem_of_build hgrid (by omega)] at hless
  have hzero := hasValue_point hb (i := 0) (by omega)
  have hone := hasValue_point hb (i := 1) (by omega)
  rw [position_zero hb.hasStart.toDouble_eq] at hzero
  rw [position_one hb hpos hsmall] at hone
  exact lt_irrefl _ ((Number.lt_iff hzero hone).mp hless)

theorem advances_of_build : Advances h start stop step grid := by
  have hlength := length_eq_pointCount hb hgrid
  have htwo := two_le_pointCount_of_bounded hb
  constructor
  case length => exact hlength
  case two_le => omega
  case first =>
    refine ⟨h.start + Float.ofNat 0 * h.step, ?_, ?_⟩
    · rw [List.head?_eq_getElem?, List.getElem?_eq_getElem (by omega),
        getElem_of_build hgrid (by omega)]
      rfl
    · rw [Number.beq_iff (hasValue_point hb (by omega)) hb.hasStart]
      exact position_zero hb.hasStart.toDouble_eq
  case last =>
    rw [List.getLast?_eq_getElem?, List.getElem?_eq_getElem (by omega),
      getElem_last_of_build hgrid (by omega)]
    exact congrArg some (larger_eq_stop hb)
  case regular =>
    exact pairwise_dropLast hb hgrid Number.le_iff fun i j hij _ ↦ position_mono hb.pos.le hij.le
  case ordered => exact ordered_of_length hb hgrid
  case strict => exact strict_of_resolved hb hgrid
  case stalled => exact not_strict_of_stalled hb hgrid

end

/-- The grid of any horizon within bounds: when there is none, how it begins and ends, and how far its
points are in order. -/
theorem grid_advances {h : Horizon} (hbounds : timeBounds h = []) (limit : ℕ) :
    (∀ count, build h.start h.stop h.step limit = .error count ↔
      limit < pointCount h.start h.stop h.step ∧ pointCount h.start h.stop h.step = count) ∧
    ∃ start stop step, h.Bounded start stop step ∧ ∀ grid,
      build h.start h.stop h.step limit = .ok grid → Advances h start stop step grid := by
  obtain ⟨start, stop, step, hb⟩ := timeBounds_eq_nil.mp hbounds
  exact ⟨fun _ ↦ build_eq_error, start, stop, step, hb, fun _ ↦ advances_of_build hb⟩

theorem grid_advances_quarters : ∃ grid, build 0 1 0.25 10 = .ok grid ∧
    grid.length = pointCount (0 : Float) 1 0.25 ∧ grid.getLast? = some 1 ∧
    grid.Pairwise (· < ·) := by
  obtain ⟨grid, hgrid⟩ : ∃ grid, build (0 : Float) 1 0.25 10 = .ok grid :=
    Except.toBool_eq_true.mp (by decide +kernel)
  have hbounds : timeBounds ⟨0, 1, 0.25, .months⟩ = [] := List.isEmpty_iff.mp (by decide +kernel)
  obtain ⟨-, start, stop, step, hb, hadvances⟩ := grid_advances hbounds 10
  have hquarter : HasValue 0.25 (1 / 4) := by
    have hunpack : (0.25 : Float).toModel.unpack = .finite .positive (2 ^ 52) (-54) (by decide) := by
      rfl
    have hvalue := Number.hasValue_of_finite hunpack
    norm_num [Float.Model.UnpackedFloat.Sign.apply] at hvalue ⊢
    exact hvalue
  have hstart : start = 0 := (Number.beq_iff hb.hasStart hasValue_zero).mp (by decide +kernel)
  have hstop : stop = 1 := (Number.beq_iff hb.hasStop hasValue_one).mp (by decide +kernel)
  have hstep : step = 1 / 4 := (Number.beq_iff hb.hasStep hquarter).mp (by decide +kernel)
  have hresolved : Resolved start stop step := by
    have hgrain : grain 1 = -52 := by
      rw [grain, abs_one, Int.log_one_right]
      norm_num
    rw [hstart, hstop, hstep]
    constructor <;> norm_num [hgrain]
  have h := hadvances grid hgrid
  exact ⟨grid, hgrid, h.length, h.last, h.strict hresolved⟩

/-- Where doubles are as far apart as the points of the grid, two of its points can be the same. -/
theorem grid_repeats_a_point : timeBounds ⟨4503599627370495.5, 4503599627370499, 1, .months⟩ = [] ∧
    build 4503599627370495.5 4503599627370499 1 1000 = .ok
      [4503599627370495.5, 4503599627370496, 4503599627370498, 4503599627370498,
        (4503599627370499 : Float)] ∧
    ¬ [4503599627370495.5, 4503599627370496, 4503599627370498, 4503599627370498,
      (4503599627370499 : Float)].Pairwise (· < ·) :=
  ⟨List.isEmpty_iff.mp (by decide +kernel), by decide +kernel, by decide +kernel⟩

end SystemDynamics.Grid
