import SystemDynamics.Proofs.Number.Arithmetic

namespace SystemDynamics.Number

open Float.Model (Format UnpackedFloat totalExponent)
open Float.Model.UnpackedFloat

theorem div_apply (s s' : Sign) : (s / s').apply 1 = s.apply 1 * s'.apply 1 := by
  cases s <;> cases s' <;> rfl

theorem describes_quotient (n : ℕ) {d : ℕ} (hd : 0 < d) :
    Describes (.ofMantissaAndAccuracy (n / d) (accuracyOfFraction (n % d) d)) (n / d) := by
  have hd' : (0 : ℚ) < d := by exact_mod_cast hd
  have hn : (n : ℚ) = d * (n / d : ℕ) + (n % d : ℕ) := by exact_mod_cast (Nat.div_add_mod n d).symm
  have hlt : ((n % d : ℕ) : ℚ) < d := by exact_mod_cast Nat.mod_lt n hd
  have hvalue : (n / d : ℚ) = (n / d : ℕ) + (n % d : ℕ) / d := by
    rw [div_eq_iff hd'.ne', add_mul, div_mul_cancel₀ _ hd'.ne', hn]
    ring
  generalize n / d = q at hvalue ⊢
  generalize n % d = r at hvalue hlt ⊢
  rw [hvalue, accuracyOfFraction]
  split
  case isTrue hzero =>
    rw [hzero, Nat.cast_zero, zero_div, add_zero]
    exact describes_exact q
  case isFalse hne =>
    have hr : (0 : ℚ) < r := by exact_mod_cast Nat.pos_of_ne_zero hne
    rcases lt_trichotomy (2 * r) d with hbelow | hhalf | habove
    · have hbelow' : (2 * r : ℚ) < d := by exact_mod_cast hbelow
      rw [Nat.compare_eq_lt.mpr hbelow]
      refine ⟨r / d, by simp [ExtendedMantissa.ofMantissaAndAccuracy], by positivity, ?_, ?_⟩
      · rw [div_lt_div_iff₀ hd' two_pos]
        linarith
      · simpa [ExtendedMantissa.ofMantissaAndAccuracy] using ⟨hne, hd.ne'⟩
    · have hhalf' : (2 * r : ℚ) = d := by exact_mod_cast hhalf
      rw [Nat.compare_eq_eq.mpr hhalf]
      refine ⟨0, ?_, le_rfl, by norm_num, by simp [ExtendedMantissa.ofMantissaAndAccuracy]⟩
      simp only [ExtendedMantissa.ofMantissaAndAccuracy, Bool.toNat_true, ← hhalf']
      field_simp
      simp
    · have habove' : (d : ℚ) < 2 * r := by exact_mod_cast habove
      rw [Nat.compare_eq_gt.mpr habove]
      refine ⟨r / d - 1 / 2, ?_, ?_, ?_, ?_⟩
      · simp only [ExtendedMantissa.ofMantissaAndAccuracy, Bool.toNat_true]
        push_cast
        ring
      · rw [sub_nonneg, div_le_div_iff₀ two_pos hd']
        linarith
      · rw [sub_lt_iff_lt_add, div_lt_iff₀ hd']
        linarith
      · have : (r / d : ℚ) - 1 / 2 ≠ 0 := by
          rw [sub_ne_zero, Ne, div_eq_div_iff hd'.ne' two_ne_zero]
          intro h
          linarith
        simpa [ExtendedMantissa.ofMantissaAndAccuracy] using this

theorem pow_log2_le {m : ℕ} (hm : 0 < m) (e : ℤ) : (2 ^ (m.log2 + e) : ℚ) ≤ m * 2 ^ e := by
  rw [zpow_add₀ two_ne_zero, zpow_natCast]
  refine mul_le_mul_of_nonneg_right ?_ (zpow_pos two_pos _).le
  exact_mod_cast Nat.log2_self_le hm.ne'

theorem lt_pow_log2 (m : ℕ) (e : ℤ) : (m * 2 ^ e : ℚ) < 2 ^ (m.log2 + 1 + e) := by
  rw [zpow_add₀ two_ne_zero]
  refine mul_lt_mul_of_pos_right ?_ (zpow_pos two_pos _)
  exact_mod_cast Nat.lt_log2_self

/-- The exponent of a quotient fits, also where it has no whole part: it is then below the smallest
double. -/
theorem targetExponent_quotient {n d : ℕ} (hd : 0 < d) {t T : ℤ} {q : ℚ}
    (hscaled : q / 2 ^ t = n / d) (ht : t ≤ max (T - 53) (-1074)) (hlarge : 2 ^ (T - 1) < q) :
    Format.binary64.targetExponent (totalExponent (n / d) t) = grain q := by
  have hpos : (0 : ℚ) < 2 ^ t := zpow_pos two_pos _
  have hd' : (0 : ℚ) < d := by exact_mod_cast hd
  have hq : 0 < q := (zpow_pos two_pos _).trans hlarge
  have hvalue : q = n / d * 2 ^ t := by rw [← hscaled, div_mul_cancel₀ _ hpos.ne']
  have hupper : q < ((n / d : ℕ) + 1) * 2 ^ t := by
    rw [hvalue]
    refine mul_lt_mul_of_pos_right ((div_lt_iff₀' hd').mpr ?_) hpos
    exact_mod_cast Nat.lt_mul_div_succ n hd
  rcases (n / d).eq_zero_or_pos with hzero | hwhole
  · rw [hzero, Nat.cast_zero, zero_add, one_mul] at hupper
    have hbelow := (zpow_lt_zpow_iff_right₀ (one_lt_two (α := ℚ))).mp (hlarge.trans hupper)
    have hgrain : grain q = -1074 := by
      refine Number.grain_eq hq.ne' ?_ le_rfl (.inr rfl)
      rw [abs_of_pos hq]
      exact hupper.trans (zpow_lt_zpow_right₀ one_lt_two (by omega))
    rw [hzero, hgrain]
    simp only [Format.targetExponent, totalExponent, Format.mantissaBits, Format.minExponent,
      Nat.log2_zero]
    omega
  · refine targetExponent_of_floor hwhole ?_ hupper
    rw [hvalue]
    exact mul_le_mul_of_nonneg_right Nat.cast_div_le hpos.le

theorem divCore_represents (s : Sign) {m m' : ℕ} (hm : 0 < m) (hm' : 0 < m') (e e' : ℤ) :
    Represents (s.apply 1 * toDouble (m * 2 ^ e / (m' * 2 ^ e')))
      (roundWithAccuracy .binary64 s (divCore .binary64 m e m' e').1
        (divCore .binary64 m e m' e').2.1 (divCore .binary64 m e m' e').2.2) := by
  have hpos : (0 : ℚ) < m' * 2 ^ e' := mul_pos (by exact_mod_cast hm') (zpow_pos two_pos _)
  have hlarge : (2 : ℚ) ^ (m.log2 + e - (m'.log2 + e') - 1) < m * 2 ^ e / (m' * 2 ^ e') := by
    rw [sub_sub, zpow_sub₀ two_ne_zero, div_lt_div_iff₀ (zpow_pos two_pos _) hpos, add_right_comm]
    exact mul_lt_mul' (pow_log2_le hm e) (lt_pow_log2 m' e') hpos.le
      (mul_pos (by exact_mod_cast hm) (zpow_pos two_pos _))
  have htarget : Format.binary64.targetExponent (totalExponent m e - totalExponent m' e') =
      max (m.log2 + e - (m'.log2 + e') - 53) (-1074) := by
    simp only [Format.targetExponent, totalExponent, Format.mantissaBits, Format.minExponent]
    omega
  simp only [divCore, htarget]
  generalize ht : min (e - e') (max (m.log2 + e - (m'.log2 + e') - 53) (-1074)) = t
  have hscaled : (m * 2 ^ e / (m' * 2 ^ e') / 2 ^ t : ℚ) = (m <<< (e - e' - t).toNat : ℕ) / m' := by
    have he : (2 : ℚ) ^ e = 2 ^ e' * 2 ^ t * 2 ^ (e - e' - t).toNat := by
      rw [← zpow_natCast, ← zpow_add₀ two_ne_zero, ← zpow_add₀ two_ne_zero]
      congr 1
      omega
    rw [he, Nat.shiftLeft_eq]
    push_cast
    field_simp
  generalize m <<< (e - e' - t).toNat = n at hscaled ⊢
  generalize (m * 2 ^ e / (m' * 2 ^ e') : ℚ) = q at hlarge hscaled ⊢
  have hq : 0 < q := (zpow_pos two_pos _).trans hlarge
  refine roundWithAccuracy_describes s hq (hscaled ▸ describes_quotient n hm')
    (targetExponent_quotient hm' hscaled (by omega) hlarge) ?_
  rcases le_or_gt t (-1074) with hleast | hgreater
  · exact hleast.trans (le_max_right _ _)
  · refine le_grain ?_
    rw [abs_of_pos hq]
    exact (zpow_le_zpow_right₀ one_le_two (by omega)).trans hlarge.le

variable {x y : Float} {p q : ℚ} {u v : UnpackedFloat}

theorem div_represents (hu : Represents p u) (hv : Represents q v) (hq : q ≠ 0) :
    Represents (toDouble (p / q)) (UnpackedFloat.div .binary64 u v) := by
  cases hv with
  | zero s' => exact absurd rfl hq
  | @finite s' m' e' hm' h' =>
    cases hu with
    | zero s =>
      rw [zero_div, toDouble_zero]
      exact .zero _
    | @finite s m e hm h =>
      have hvalue : (s.apply m * 2 ^ e / (s'.apply m' * 2 ^ e') : ℚ) =
          (s / s').apply 1 * (m * 2 ^ e / (m' * 2 ^ e')) := by
        rw [cast_apply s, cast_apply s', div_apply]
        cases s <;> cases s' <;> simp [Sign.apply, neg_div, div_neg]
      rw [hvalue, toDouble_apply]
      exact divCore_represents _ hm hm' e e'

theorem hasValue_div (hx : HasValue x p) (hy : HasValue y q) (hq : q ≠ 0)
    (h : |toDouble (p / q)| < 2 ^ (1024 : ℤ)) : HasValue (x / y) (toDouble (p / q)) :=
  hasValue_pack (div_represents hx hy hq) h

end SystemDynamics.Number
