import SystemDynamics.Number.Reading
import SystemDynamics.Proofs.Number.Quotient

namespace SystemDynamics.Number

open Float.Model (Format UnpackedFloat)
open Float.Model.UnpackedFloat

theorem ofScientific_table : ∀ k < 23,
    Float.ofScientific 1 false k = .ofModel (.pack (UnpackedFloat.ofScientific .binary64 1 k)) := by
  decide +kernel

theorem ten_pow_add_lt : ∀ k < 309, 10 ^ k + 2 ^ 970 < 2 ^ 1024 := by
  decide +kernel

theorem ten_pow_lt {k : ℕ} (hk : k ≤ 308) :
    |((10 ^ k : ℕ) : ℚ)| < 2 ^ (1024 : ℤ) - 2 ^ (970 : ℤ) := by
  rw [abs_of_nonneg (Nat.cast_nonneg _), lt_sub_iff_add_lt]
  exact_mod_cast ten_pow_add_lt k (by omega)

theorem hasValue_ofDecimal {k : ℕ} (hk : k ≤ 308) :
    HasValue (ofDecimal 1 k) (toDouble (10 ^ k : ℕ)) := by
  have hrepresents := ofScientific_represents Nat.one_pos (k := k) (by omega)
  rw [one_mul] at hrepresents
  have hvalue := hasValue_pack hrepresents (abs_toDouble_lt (ten_pow_lt hk))
  have hpower : ofDecimal 1 k = .ofModel (.pack (UnpackedFloat.ofScientific .binary64 1 k)) := by
    have hsign : decide ((k : ℤ) < 0) = false := by simp
    rw [ofDecimal, hsign, Int.natAbs_natCast]
    by_cases hfast : k < 23
    · exact ofScientific_table k hfast
    · rw [Float.ofScientific, dif_neg (by omega)]
      rfl
  rw [hpower]
  exact hvalue

/-- Powers of ten up to the twenty-second are doubles. -/
theorem toDouble_ten_pow {k : ℕ} (hk : k ≤ 22) : toDouble (10 ^ k : ℕ) = (10 ^ k : ℕ) := by
  have hfive : 5 ^ k < 2 ^ 53 := (Nat.pow_le_pow_right (by decide) hk).trans_lt (by decide)
  have hsplit : ((10 ^ k : ℕ) : ℚ) = (5 ^ k : ℕ) * 2 ^ (k : ℤ) := by
    rw [zpow_natCast]
    push_cast
    rw [← mul_pow]
    norm_num
  rw [hsplit]
  exact toDouble_of_lt hfive (by omega)

theorem abs_toDouble_natCast_sub_le {n : ℕ} (hn : 0 < n) :
    |toDouble n - n| ≤ n * 2 ^ (-53 : ℤ) := by
  refine abs_toDouble_sub_le_mul ?_
  have hsmall : (2 : ℚ) ^ (-1022 : ℤ) ≤ 2 ^ (0 : ℤ) := zpow_le_zpow_right₀ one_le_two (by omega)
  rw [zpow_zero] at hsmall
  exact hsmall.trans (by exact_mod_cast hn)

theorem half_le_toDouble {n : ℕ} (hn : 0 < n) : 1 / 2 ≤ toDouble n := by
  have hone : (1 : ℚ) ≤ n := by exact_mod_cast hn
  have hlower := (abs_le.mp (abs_toDouble_natCast_sub_le hn)).1
  norm_num at hlower
  linarith

variable {x : Float} {p : ℚ} {N : ℤ} {k : ℕ}

theorem hasValue_div_ofDecimal (hx : HasValue x p) (hk : k ≤ 308) (hp : |p| ≤ 2 ^ N)
    (hN : -1075 ≤ N) (hN' : N < 1023) :
    HasValue (x / ofDecimal 1 k) (toDouble (p / toDouble (10 ^ k : ℕ))) ∧
      |toDouble (p / toDouble (10 ^ k : ℕ))| ≤ 2 ^ (N + 1) := by
  have hpower := half_le_toDouble (Nat.pow_pos (n := k) (by decide : 0 < 10))
  have hpos : (0 : ℚ) < toDouble (10 ^ k : ℕ) := by linarith
  have hle : |p / toDouble (10 ^ k : ℕ)| ≤ 2 ^ (N + 1) := by
    rw [abs_div, abs_of_pos hpos, div_le_iff₀ hpos, zpow_add_one₀ two_ne_zero]
    nlinarith [zpow_pos (two_pos (α := ℚ)) N]
  have hrounded := abs_toDouble_le (by omega) hle
  refine ⟨hasValue_div hx (hasValue_ofDecimal hk) hpos.ne' (hrounded.trans_lt ?_), hrounded⟩
  exact zpow_lt_zpow_right₀ one_lt_two (by omega)

end SystemDynamics.Number
