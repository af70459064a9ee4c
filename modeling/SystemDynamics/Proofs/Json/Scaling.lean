import SystemDynamics.Json.Scan
import SystemDynamics.Proofs.Number.Accuracy

namespace SystemDynamics.Json

open SystemDynamics.Number

section

variable {n : ℕ} (hn : n ≤ 2 ^ 64)

include hn

theorem scale_up {k : ℕ} (hk : k ≤ 308)
    (h : |toDouble (toDouble n * toDouble (10 ^ k : ℕ))| < 2 ^ (1024 : ℤ)) (fuel : ℕ) :
    ∃ y, scale (fuel + 1) (Float.ofNat n) k = some y ∧
      HasValue y (toDouble (toDouble n * toDouble (10 ^ k : ℕ))) := by
  have hproduct := hasValue_mul (hasValue_ofNat hn) (hasValue_ofDecimal hk) h
  refine ⟨_, ?_, hproduct⟩
  rw [scale, if_pos (by simpa using hk), if_pos (by omega), Int.natAbs_natCast]
  exact if_neg (by simp [hproduct.isInf])

theorem scale_up_of_eq_some {k : ℕ} (hk : k ≤ 308) {fuel : ℕ} {y : Float}
    (h : scale (fuel + 1) (Float.ofNat n) k = some y) :
    HasValue y (toDouble (toDouble n * toDouble (10 ^ k : ℕ))) := by
  rw [scale, if_pos (by simpa using hk), if_pos (by omega), Int.natAbs_natCast] at h
  obtain ⟨hfinite, hy⟩ := (ite_eq_iff.mp h).resolve_left (by simp)
  obtain rfl := Option.some.inj hy
  exact hasValue_mul_of_not_isInf (hasValue_ofNat hn) (hasValue_ofDecimal hk) (by simpa using hfinite)

theorem abs_toDouble_le_pow : |toDouble n| ≤ 2 ^ (64 : ℤ) := by
  refine abs_toDouble_le (by omega) ?_
  rw [abs_of_nonneg (Nat.cast_nonneg n)]
  exact_mod_cast hn

theorem scale_down {k : ℕ} (hk : 0 < k) (hk' : k ≤ 308) (fuel : ℕ) :
    ∃ y, scale (fuel + 1) (Float.ofNat n) (-k) = some y ∧
      HasValue y (toDouble (toDouble n / toDouble (10 ^ k : ℕ))) := by
  have hquotient := hasValue_div_ofDecimal (hasValue_ofNat hn) hk' (abs_toDouble_le_pow hn)
    (by omega) (by omega)
  refine ⟨_, ?_, hquotient.1⟩
  rw [scale, if_pos (by omega), if_neg (by omega), Int.natAbs_neg, Int.natAbs_natCast]

/-- A number far below one is divided twice. -/
theorem scale_far_down (hpos : 0 < n) {k : ℕ} (hk : 0 < k) (hk' : k ≤ 308) (fuel : ℕ) :
    ∃ y, scale (fuel + 2) (Float.ofNat n) (-(308 + k : ℕ)) = some y ∧
      HasValue y (toDouble (toDouble (toDouble n / toDouble (10 ^ 308 : ℕ)) /
        toDouble (10 ^ k : ℕ))) := by
  have hlargest : (1e308 : Float) = ofDecimal 1 (308 : ℕ) := rfl
  have hrest : -((308 + k : ℕ) : ℤ) + 308 = -(k : ℤ) := by omega
  have hfirst := hasValue_div_ofDecimal (hasValue_ofNat hn) le_rfl (abs_toDouble_le_pow hn)
    (by omega) (by omega)
  have hsecond := hasValue_div_ofDecimal hfirst.1 hk' hfirst.2 (by omega) (by omega)
  have hnonzero : ¬ (Float.ofNat n == 0) = true := by
    have hzero : HasValue 0 0 := .zero .positive
    rw [beq_iff (hasValue_ofNat hn) hzero]
    have := half_le_toDouble hpos
    linarith
  refine ⟨_, ?_, hsecond.1⟩
  rw [scale, if_neg (by omega), if_neg hnonzero, if_neg (by omega), hrest, hlargest, scale,
    if_pos (by omega), if_neg (by omega), Int.natAbs_neg, Int.natAbs_natCast]

end

theorem smallest_le {n : ℕ} (hn : 0 < n) :
    (2 : ℚ) ^ (-1075 : ℤ) ≤ 3 * 2 ^ (-53 : ℤ) * (n / (10 ^ 308 : ℕ)) := by
  have hpow : 10 ^ 308 ≤ 3 * 2 ^ 1022 := by decide +kernel
  have hcast : ((10 ^ 308 : ℕ) : ℚ) ≤ 3 * 2 ^ (1022 : ℤ) := by exact_mod_cast hpow
  have hone : (1 : ℚ) ≤ n := by exact_mod_cast hn
  have hten : (0 : ℚ) < (10 ^ 308 : ℕ) := by positivity
  have hsplit : (2 : ℚ) ^ (-1075 : ℤ) * 2 ^ (1022 : ℤ) = 2 ^ (-53 : ℤ) := by
    rw [← zpow_add₀ two_ne_zero]
    rfl
  rw [← mul_div_assoc, le_div_iff₀ hten]
  calc (2 : ℚ) ^ (-1075 : ℤ) * (10 ^ 308 : ℕ)
      ≤ 2 ^ (-1075 : ℤ) * (3 * 2 ^ (1022 : ℤ)) :=
        mul_le_mul_of_nonneg_left hcast (zpow_pos two_pos _).le
    _ = 3 * 2 ^ (-53 : ℤ) := by rw [mul_left_comm, hsplit]
    _ ≤ 3 * 2 ^ (-53 : ℤ) * n := le_mul_of_one_le_right (by positivity) hone

/-- What a number is scaled to is rounded from one that is close to the exact one. -/
theorem off_of_scale {n : ℕ} (hn : n ≤ 2 ^ 64) (hpos : 0 < n) {w : ℤ} (hleast : -342 ≤ w)
    (hgreatest : w ≤ 308) {y : Float} (h : scale (w.natAbs + 1) (Float.ofNat n) w = some y) :
    ∃ p, Off 8 (n * 10 ^ w) p ∧ HasValue y (toDouble p) := by
  have hn0 : (0 : ℚ) < n := by exact_mod_cast hpos
  have hten : ∀ k : ℕ, (0 : ℚ) < (10 ^ k : ℕ) ∧ Off 1 (10 ^ k : ℕ) (toDouble (10 ^ k : ℕ)) :=
    fun k ↦ ⟨by positivity, off_toDouble (Nat.pow_pos (by decide))⟩
  rcases lt_or_ge w 0 with hneg | hnonneg
  · obtain ⟨k, rfl⟩ := Int.exists_eq_neg_ofNat hneg.le
    rw [Int.natAbs_neg, Int.natAbs_natCast] at h
    rw [zpow_neg, ← div_eq_mul_inv, zpow_natCast]
    rcases Nat.lt_or_ge 308 k with hfar | hclose
    · obtain ⟨k, rfl⟩ := Nat.exists_eq_add_of_lt hfar
      obtain ⟨z, hz, hvalue⟩ := scale_far_down hn hpos (Nat.succ_pos k) (by omega) (308 + k)
      obtain rfl := Option.some.inj (h.symm.trans hz)
      have hfirst : (0 : ℚ) < n / (10 ^ 308 : ℕ) := div_pos hn0 (hten 308).1
      have hquotient := (off_toDouble hpos).div hn0 (hten 308).1 (by decide) (hten 308).2
      -- The first quotient is rounded before it is divided again.
      have hrounded := hquotient.rounded hfirst (smallest_le hpos)
      have hoff := hrounded.div hfirst (hten (k + 1)).1 (by decide) (hten (k + 1)).2
      refine ⟨_, ?_, hvalue⟩
      rw [div_div, ← Nat.cast_mul, ← pow_add] at hoff
      exact_mod_cast hoff
    · obtain ⟨z, hz, hvalue⟩ := scale_down hn (by omega : 0 < k) hclose k
      obtain rfl := Option.some.inj (h.symm.trans hz)
      have hoff := (off_toDouble hpos).div hn0 (hten k).1 (by decide) (hten k).2
      refine ⟨_, ?_, hvalue⟩
      exact_mod_cast hoff.mono (by positivity) (by decide : 3 ≤ 8)
  · obtain ⟨k, rfl⟩ := Int.eq_ofNat_of_zero_le hnonneg
    have hvalue := scale_up_of_eq_some hn (by omega) h
    have hoff := (off_toDouble hpos).mul hn0 (hten k).1 (hten k).2
    refine ⟨_, ?_, hvalue⟩
    rw [zpow_natCast]
    exact_mod_cast hoff.mono (by positivity) (by decide : 3 ≤ 8)

theorem abs_product_lt {n k : ℕ} (hn : 0 < n)
    (h : (n * 10 ^ k : ℚ) ≤ (2 ^ 53 - 7 / 2) * 2 ^ (971 : ℤ)) :
    |toDouble (toDouble n * toDouble (10 ^ k : ℕ))| < 2 ^ (1024 : ℤ) := by
  have hpos : (0 : ℚ) < 2 ^ (971 : ℤ) := zpow_pos two_pos _
  have hlarge : (2 : ℚ) ^ (1024 : ℤ) - 2 ^ (970 : ℤ) = (2 ^ 53 - 1 / 2) * 2 ^ (971 : ℤ) := by
    rw [show (1024 : ℤ) = 971 + 53 from rfl, show (970 : ℤ) = 971 - 1 from rfl,
      zpow_add₀ two_ne_zero, zpow_sub_one₀ two_ne_zero]
    ring
  have rounded : ∀ {m : ℕ}, 0 < m → 0 ≤ toDouble m ∧ toDouble m ≤ m * (1 + 2 ^ (-53 : ℤ)) := by
    intro m hm
    have hupper := (abs_le.mp (abs_toDouble_natCast_sub_le hm)).2
    have hlower := half_le_toDouble hm
    constructor <;> linarith
  obtain ⟨hn0, hn⟩ := rounded hn
  obtain ⟨hk0, hk⟩ := rounded (Nat.pow_pos (n := k) (by decide : 0 < 10))
  have hproduct : toDouble n * toDouble (10 ^ k : ℕ) ≤ n * 10 ^ k * (1 + 2 ^ (-53 : ℤ)) ^ 2 := by
    refine (mul_le_mul hn hk hk0 (by positivity)).trans_eq ?_
    push_cast
    ring
  refine abs_toDouble_lt ?_
  rw [abs_of_nonneg (mul_nonneg hn0 hk0), hlarge]
  refine hproduct.trans_lt ?_
  generalize (2 : ℚ) ^ (971 : ℤ) = largest at hpos h
  norm_num at h ⊢
  linarith

/-- With few digits and a small power there is one rounding, of the exact number. -/
theorem scale_exact {n : ℕ} {w : ℤ} (hn : n < 2 ^ 53) (hw : w.natAbs ≤ 22) (fuel : ℕ) :
    ∃ y, scale (fuel + 1) (Float.ofNat n) w = some y ∧ HasValue y (toDouble (n * 10 ^ w)) := by
  have hexact : toDouble n = n := by
    have := toDouble_of_lt hn (e := 0) (by omega)
    rwa [zpow_zero, mul_one] at this
  rcases lt_or_ge w 0 with hneg | hnonneg
  · obtain ⟨k, rfl⟩ := Int.exists_eq_neg_ofNat hneg.le
    have hdown := scale_down (by omega : n ≤ 2 ^ 64) (k := k) (by omega) (by omega) fuel
    rw [hexact, toDouble_ten_pow (by omega)] at hdown
    rw [zpow_neg, ← div_eq_mul_inv, zpow_natCast]
    exact_mod_cast hdown
  · obtain ⟨k, rfl⟩ := Int.eq_ofNat_of_zero_le hnonneg
    have hlarge : |toDouble (n * (10 ^ k : ℕ))| < 2 ^ (1024 : ℤ) := by
      have hk : 10 ^ k ≤ 10 ^ 22 := Nat.pow_le_pow_right (by decide) (by omega)
      have hproduct : n * 10 ^ k ≤ 2 ^ 127 := (Nat.mul_le_mul hn.le hk).trans (by norm_num)
      have hle : |(n * (10 ^ k : ℕ) : ℚ)| ≤ 2 ^ (127 : ℤ) := by
        rw [abs_of_nonneg (by positivity)]
        exact_mod_cast hproduct
      exact (abs_toDouble_le (by omega) hle).trans_lt (zpow_lt_zpow_right₀ one_lt_two (by omega))
    have hup := scale_up (by omega : n ≤ 2 ^ 64) (k := k) (by omega)
      (by rwa [hexact, toDouble_ten_pow (by omega)]) fuel
    rw [hexact, toDouble_ten_pow (by omega)] at hup
    rw [zpow_natCast]
    exact_mod_cast hup

end SystemDynamics.Json
