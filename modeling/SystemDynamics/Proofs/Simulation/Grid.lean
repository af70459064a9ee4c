import SystemDynamics.Proofs.Number.Arithmetic
import SystemDynamics.Proofs.Validation.Acceptance
import SystemDynamics.Simulation.Run

namespace SystemDynamics

open Number (HasValue hasValue_ofNat hasValue_unitBits toDouble)
open Validation (timeBounds violated_eq_nil violations)

/-- A horizon within bounds, by the exact values of its numbers. -/
structure Horizon.Bounded (h : Horizon) (start stop step : ℚ) : Prop where
  hasStart : HasValue h.start start
  hasStop : HasValue h.stop stop
  hasStep : HasValue h.step step
  nonneg : 0 ≤ start
  later : start < stop
  pos : 0 < step
  le_one : step ≤ 1

theorem hasValue_zero : HasValue 0 0 := by
  have h := hasValue_ofNat (n := 0) (by omega)
  rwa [Nat.cast_zero, Number.toDouble_zero] at h

theorem hasValue_one : HasValue 1 1 := by
  have h := hasValue_ofNat (n := 1) (by omega)
  rwa [Nat.cast_one, hasValue_unitBits.toDouble_eq] at h

theorem timeBounds_eq_nil {h : Horizon} :
    timeBounds h = [] ↔ ∃ start stop step, h.Bounded start stop step := by
  have hsilent : ∀ {start stop step}, HasValue h.start start → HasValue h.stop stop →
      HasValue h.step step →
      (timeBounds h = [] ↔ ¬ start < 0 ∧ ¬ stop ≤ start ∧ ¬ step ≤ 0 ∧ ¬ 1 < step) := by
    intro start stop step hstart hstop hstep
    rw [timeBounds, if_neg (by simp [hstart.isFinite, hstop.isFinite, hstep.isFinite])]
    simp only [List.append_eq_nil_iff, violated_eq_nil, Bool.or_eq_false_iff,
      decide_eq_false_iff_not, Number.lt_iff hstart hasValue_zero, Number.le_iff hstop hstart,
      Number.le_iff hstep hasValue_zero, Number.lt_iff hasValue_one hstep, and_assoc]
  constructor
  · intro hbounds
    have hfinite : h.start.isFinite ∧ h.stop.isFinite ∧ h.step.isFinite := by
      rw [timeBounds] at hbounds
      split at hbounds
      case isTrue => simp at hbounds
      case isFalse hfinite =>
        simpa only [Bool.not_eq_true, Bool.not_eq_false', Bool.and_eq_true, and_assoc] using hfinite
    obtain ⟨start, hstart⟩ := Number.exists_hasValue hfinite.1
    obtain ⟨stop, hstop⟩ := Number.exists_hasValue hfinite.2.1
    obtain ⟨step, hstep⟩ := Number.exists_hasValue hfinite.2.2
    obtain ⟨hnonneg, hlater, hpos, hone⟩ := (hsilent hstart hstop hstep).mp hbounds
    exact ⟨start, stop, step, hstart, hstop, hstep, not_lt.mp hnonneg, not_le.mp hlater,
      not_le.mp hpos, not_lt.mp hone⟩
  · rintro ⟨start, stop, step, hb⟩
    rw [hsilent hb.hasStart hb.hasStop hb.hasStep]
    exact ⟨not_lt.mpr hb.nonneg, not_le.mpr hb.later, not_le.mpr hb.pos, not_lt.mpr hb.le_one⟩

theorem Domain.timeBounds_horizon (domain : Domain) : timeBounds domain.world.horizon = [] := by
  cases domain <;> exact List.isEmpty_iff.mp (by decide +kernel)

theorem timeBounds_of_violations {w : World} {d : Document} (h : violations w d = []) :
    ∀ horizon ∈ d.horizon.toList, timeBounds horizon = [] := by
  simp only [violations, Validation.wellFormed, List.append_eq_nil_iff] at h
  rw [← List.flatMap_eq_nil_iff]
  tauto

theorem Domain.validate_horizon {domain : Domain} {d : Document} {m : Model}
    (h : domain.validate d = .ok m) : ∃ start stop step, m.horizon.Bounded start stop step := by
  obtain ⟨hviolations, p, -, rfl⟩ := Domain.validate_eq_ok.mp h
  rw [← timeBounds_eq_nil]
  cases hd : d.horizon with
  | none => exact domain.timeBounds_horizon
  | some horizon => exact timeBounds_of_violations hviolations horizon (by simp [hd])

namespace Grid

theorem pointCount_le (start stop step : Float) : pointCount start stop step ≤ 2 ^ 64 := by
  have hsteps : ∀ x : Float, x.toUInt64.toNat < 2 ^ 64 := fun x ↦ x.toUInt64.toNat_lt
  rw [pointCount]
  split
  · dsimp only
    split
    · decide
    · exact hsteps _
  · decide

def position (start step : ℚ) (i : ℕ) : ℚ :=
  toDouble (start + toDouble (toDouble i * step))

theorem hasValue_point {h : Horizon} {start stop step : ℚ} (hb : h.Bounded start stop step)
    {i : Nat} (hi : i ≤ 2 ^ 64) :
    HasValue (h.start + Float.ofNat i * h.step) (position start step i) := by
  have hcount : |toDouble i| ≤ 2 ^ (64 : ℤ) := by
    refine Number.abs_toDouble_le (by omega) ?_
    rw [abs_of_nonneg (Nat.cast_nonneg i)]
    exact_mod_cast hi
  have hpassed : |toDouble (toDouble i * step)| ≤ 2 ^ (64 : ℤ) := by
    refine Number.abs_toDouble_le (by omega) ?_
    rw [abs_mul, abs_of_pos hb.pos]
    exact (mul_le_of_le_one_right (abs_nonneg _) hb.le_one).trans hcount
  have hproduct := Number.hasValue_mul (hasValue_ofNat hi) hb.hasStep
    (hpassed.trans_lt (zpow_lt_zpow_right₀ one_lt_two (by omega)))
  refine Number.hasValue_add hb.hasStart hproduct (Number.abs_toDouble_lt ?_)
  have hroom : (2 : ℚ) ^ (64 : ℤ) < 2 ^ (970 : ℤ) := zpow_lt_zpow_right₀ one_lt_two (by omega)
  have hlast : (2 : ℚ) ^ (971 : ℤ) = 2 ^ (970 : ℤ) * 2 := zpow_add_one₀ two_ne_zero 970
  have hstart := hb.hasStart.abs_le
  have htriangle := abs_add_le start (toDouble (toDouble i * step))
  rw [hlast] at hstart
  generalize (2 : ℚ) ^ (1024 : ℤ) = last at hstart ⊢
  generalize (2 : ℚ) ^ (970 : ℤ) = room at hstart hroom ⊢
  linarith

theorem points_isFinite {h : Horizon} {start stop step : ℚ} (hb : h.Bounded start stop step)
    {limit : Nat} {grid : List Float} (hgrid : build h.start h.stop h.step limit = .ok grid)
    {t : Float} (ht : t ∈ grid) : t.isFinite := by
  have hcount := pointCount_le h.start h.stop h.step
  rw [build] at hgrid
  split at hgrid
  case isTrue => simp at hgrid
  case isFalse =>
    rw [← Except.ok.inj hgrid, points, List.mem_append, List.mem_map, List.mem_singleton] at ht
    rcases ht with ⟨i, hi, rfl⟩ | rfl
    · rw [List.mem_range] at hi
      exact (hasValue_point hb (by omega)).isFinite
    · change (Number.larger h.stop h.start).isFinite
      rw [Number.larger]
      split_ifs
      · exact hb.hasStart.isFinite
      · exact hb.hasStop.isFinite
      · exact hb.hasStart.isFinite
      · exact hb.hasStop.isFinite

end Grid

end SystemDynamics
