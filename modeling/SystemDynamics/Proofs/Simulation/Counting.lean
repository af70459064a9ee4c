import SystemDynamics.Proofs.Number.Whole
import SystemDynamics.Proofs.Simulation.Grid
import SystemDynamics.Proofs.Simulation.Spacing

namespace SystemDynamics.Grid

open Number (Granular HasValue grain infinity toDouble toDouble_mono)

theorem hasValue_tolerance : ∃ c : ℚ, HasValue 1e-9 c ∧ 2 ^ (-30 : ℤ) ≤ c ∧ c ≤ 1 := by
  have hunpack : (1e-9 : Float).toModel.unpack =
      .finite .positive 0x112E0BE826D695 (-82) (by decide) := by rfl
  refine ⟨_, Number.hasValue_of_finite hunpack, ?_, ?_⟩ <;>
    norm_num [Float.Model.UnpackedFloat.Sign.apply]

theorem steps_eq (start stop step : Float) : steps start stop step =
    if ((stop - start) / step - Number.round ((stop - start) / step)).abs ≤
        1e-9 * Number.larger ((stop - start) / step) 1 then
      Number.larger (Number.round ((stop - start) / step)) 1
    else Number.ceil ((stop - start) / step) := by
  rfl

theorem hasValue_steps {start stop step : Float} {ratio : ℚ}
    (h : HasValue ((stop - start) / step) ratio) (hratio : 0 < ratio) :
    ∃ n : ℕ, HasValue (steps start stop step) n ∧ Counted ratio n := by
  rw [steps_eq]
  generalize (stop - start) / step = x at h ⊢
  obtain ⟨c, hc, hlow, hhigh⟩ := hasValue_tolerance
  have hround := Number.hasValue_round h hratio.le
  have hlarger := Number.hasValue_larger h hasValue_one
  have hnonneg : 0 ≤ c := (zpow_pos two_pos _).le.trans hlow
  have hdistance : HasValue (x - Number.round x).abs |toDouble (ratio - ⌊ratio + 1 / 2⌋)| := by
    refine Number.hasValue_abs (Number.hasValue_sub h hround ?_)
    have hhalf : |ratio - ⌊ratio + 1 / 2⌋| ≤ 2 ^ (-1 : ℤ) := by
      have hfloor := Int.floor_le (ratio + 1 / 2)
      have hfloor' := Int.lt_floor_add_one (ratio + 1 / 2)
      rw [zpow_neg_one, abs_le]
      constructor <;> linarith
    exact (Number.abs_toDouble_le (by norm_num) hhalf).trans_lt
      (zpow_lt_zpow_right₀ one_lt_two (by norm_num))
  have hallowed : HasValue (1e-9 * Number.larger x 1) (toDouble (c * max ratio 1)) := by
    refine Number.hasValue_mul hc hlarger (Number.abs_toDouble_lt ?_)
    rw [abs_mul, abs_of_nonneg hnonneg]
    exact (mul_le_of_le_one_left (abs_nonneg _) hhigh).trans_lt hlarger.abs_lt
  by_cases hnear : |toDouble (ratio - ⌊ratio + 1 / 2⌋)| ≤ toDouble (c * max ratio 1)
  · obtain ⟨n, hn, hcounted⟩ := counted_nearest hratio
    rw [if_pos ((Number.le_iff hdistance hallowed).mpr hnear)]
    exact ⟨n, hn ▸ Number.hasValue_larger hround hasValue_one, hcounted⟩
  · have hfar : ratio * 2 ^ (-30 : ℤ) ≤ |ratio - ⌊ratio + 1 / 2⌋| := by
      by_contra hless
      refine hnear (Number.abs_toDouble_le_toDouble ((not_le.mp hless).le.trans ?_))
      rw [mul_comm]
      exact mul_le_mul hlow (le_max_left _ _) hratio.le hnonneg
    obtain ⟨n, hn, hcounted⟩ := counted_ceil hratio hfar
    rw [if_neg fun h ↦ hnear ((Number.le_iff hdistance hallowed).mp h)]
    exact ⟨n, hn ▸ Number.hasValue_ceil h hratio.le, hcounted⟩

section

variable {h : Horizon} {start stop step : ℚ} (hb : h.Bounded start stop step)

include hb

theorem granular_span : Granular (stop - start) :=
  hb.hasStop.granular.sub hb.hasStart.granular

theorem span_pos : 0 < toDouble (stop - start) :=
  (granular_span hb).toDouble_pos (sub_pos.mpr hb.later)

theorem hasValue_span : HasValue (h.stop - h.start) (toDouble (stop - start)) := by
  refine Number.hasValue_sub hb.hasStop hb.hasStart (Number.abs_toDouble_lt ?_)
  rw [abs_of_pos (sub_pos.mpr hb.later)]
  exact (sub_le_self stop hb.nonneg).trans_lt ((le_abs_self _).trans_lt hb.hasStop.abs_lt)

theorem ratio_pos : 0 < toDouble (toDouble (stop - start) / step) := by
  have hspan := span_pos hb
  refine hspan.trans_le ?_
  rw [← Number.toDouble_toDouble (stop - start)]
  refine toDouble_mono ?_
  rw [Number.toDouble_toDouble]
  exact le_div_self hspan.le hb.pos hb.le_one

theorem pointCount_eq_steps : pointCount h.start h.stop h.step =
    if Float.ofNat (2 ^ 64) ≤ steps h.start h.stop h.step then mostPoints
    else (steps h.start h.stop h.step).toUInt64.toNat + 1 := by
  have hspan : (0 : Float) < h.stop - h.start :=
    (Number.lt_iff hasValue_zero (hasValue_span hb)).mpr (span_pos hb)
  have hstep : (0 : Float) < h.step := (Number.lt_iff hasValue_zero hb.hasStep).mpr hb.pos
  exact if_pos ⟨hspan, hstep⟩

theorem pointCount_of_large
    (hlarge : 2 ^ (1024 : ℤ) ≤ toDouble (toDouble (stop - start) / step)) :
    pointCount h.start h.stop h.step = mostPoints := by
  have hinfinite : (h.stop - h.start) / h.step = infinity :=
    Number.pack_eq_infinity
      (Number.div_represents (hasValue_span hb) hb.hasStep hb.pos.ne') hlarge
  rw [pointCount_eq_steps hb, steps_eq, hinfinite]
  decide +kernel

/-- The points are those of the steps that are counted, and one, unless there are more than there is a
name for. -/
theorem pointCount_counted :
    pointCount h.start h.stop h.step = mostPoints ∧
        2 ^ (63 : ℤ) ≤ toDouble (toDouble (stop - start) / step) ∨
      ∃ n < 2 ^ 64, pointCount h.start h.stop h.step = n + 1 ∧
        Counted (toDouble (toDouble (stop - start) / step)) n := by
  have hratio := ratio_pos hb
  rcases le_or_gt (2 ^ (1024 : ℤ)) (toDouble (toDouble (stop - start) / step)) with hlarge | hless
  · exact .inl ⟨pointCount_of_large hb hlarge,
      (zpow_le_zpow_right₀ one_le_two (by norm_num)).trans hlarge⟩
  have hvalue := Number.hasValue_div (hasValue_span hb) hb.hasStep hb.pos.ne'
    (by rwa [abs_of_pos hratio])
  obtain ⟨n, hsteps, hcounted⟩ := hasValue_steps hvalue hratio
  have hmost : HasValue (Float.ofNat (2 ^ 64)) (2 ^ 64 : ℕ) := by
    have hexact := Number.toDouble_zpow (e := 64) (by norm_num)
    have hcast : ((2 ^ 64 : ℕ) : ℚ) = 2 ^ (64 : ℤ) := by norm_cast
    rw [hcast, ← hexact, ← hcast]
    exact Number.hasValue_ofNat le_rfl
  rw [pointCount_eq_steps hb]
  split
  case isTrue hmany =>
    rw [Number.le_iff hmost hsteps, Nat.cast_le] at hmany
    have hmany' : (2 ^ 64 : ℚ) ≤ n := by exact_mod_cast hmany
    have hbefore := hcounted.before
    refine .inl ⟨rfl, ?_⟩
    norm_num
    linarith
  case isFalse hfew =>
    rw [Number.le_iff hmost hsteps, Nat.cast_le, not_le] at hfew
    exact .inr ⟨n, hfew, by rw [Number.toNat_toUInt64 hsteps hfew], hcounted⟩

end

end SystemDynamics.Grid
