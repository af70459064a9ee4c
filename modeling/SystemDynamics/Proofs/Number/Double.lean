import SystemDynamics.Proofs.Number.Packing
import SystemDynamics.Proofs.Number.Rounding

namespace SystemDynamics.Number

open Float.Model (Format UnpackedFloat totalExponent)
open Float.Model.UnpackedFloat

/-- A number of canonical shape and the exact value that it has. -/
inductive Represents : ℚ → UnpackedFloat → Prop
  | zero (s : Sign) : Represents 0 (.zero s)
  | finite (s : Sign) {m : ℕ} {e : ℤ} (hm : 0 < m) (h : Canonical m e) :
      Represents (s.apply m * 2 ^ e) (.finite s m e hm)

theorem abs_sign_apply (s : Sign) (m : ℕ) : |((s.apply m : ℤ) : ℚ)| = m := by
  cases s <;> simp [Sign.apply]

theorem Canonical.grain_eq {m : ℕ} {e : ℤ} (h : Canonical m e) (hm : 0 < m) (s : Sign) :
    grain (s.apply m * 2 ^ e) = e := by
  have hpos : (0 : ℚ) < 2 ^ e := zpow_pos two_pos _
  have habs : |(s.apply m * 2 ^ e : ℚ)| = m * 2 ^ e := by
    rw [abs_mul, abs_sign_apply, abs_of_pos hpos]
  have hne : (s.apply m * 2 ^ e : ℚ) ≠ 0 := by
    rw [← abs_pos, habs]
    positivity
  refine Number.grain_eq hne ?_ h.least ?_
  · rw [habs, add_comm, zpow_add₀ two_ne_zero]
    exact mul_lt_mul_of_pos_right (by exact_mod_cast h.lt) hpos
  · refine h.full.imp_left ?_
    intro hfull
    rw [habs, add_comm, zpow_add₀ two_ne_zero]
    exact mul_le_mul_of_nonneg_right (by exact_mod_cast hfull) hpos.le

theorem Represents.toDouble_eq {q : ℚ} {u : UnpackedFloat} (h : Represents q u) :
    toDouble q = q := by
  cases h with
  | zero s => exact toDouble_zero
  | finite s hm h => exact toDouble_of_multiple (h.grain_eq hm s)

theorem Represents.unique {q : ℚ} {u v : UnpackedFloat} (hu : Represents q u) (hv : Represents q v)
    (hq : q ≠ 0) : u = v := by
  cases hu with
  | zero s => exact absurd rfl hq
  | @finite s m e hm h =>
    generalize hvalue : (s.apply m * 2 ^ e : ℚ) = q at hv
    cases hv with
    | zero s' =>
      rw [hvalue] at hq
      exact absurd rfl hq
    | @finite s' m' e' hm' h' =>
      have he : e = e' := by
        rw [← h.grain_eq hm s, hvalue, h'.grain_eq hm' s']
      subst he
      have hsigned : s.apply m = s'.apply m' := by
        exact_mod_cast mul_right_cancel₀ (zpow_ne_zero e two_ne_zero) hvalue
      have hsame : s = s' ∧ m = m' := by
        cases s <;> cases s' <;> simp only [Sign.apply] at hsigned <;>
          first | exact ⟨rfl, by omega⟩ | omega
      obtain ⟨rfl, rfl⟩ := hsame
      rfl

/-- A number is the mantissa, the half that the bit below it stands for and a rest, of which the last
bit says whether there is any. -/
def Describes (em : ExtendedMantissa) (y : ℚ) : Prop :=
  ∃ rest : ℚ, y = em.mantissa + em.roundBit.toNat / 2 + rest ∧ 0 ≤ rest ∧ rest < 1 / 2 ∧
    (em.stickyBit = false ↔ rest = 0)

theorem describes_exact (m : ℕ) : Describes ⟨m, false, false⟩ m :=
  ⟨0, by simp, le_rfl, by norm_num, by simp⟩

section

variable {em : ExtendedMantissa} {y : ℚ}

theorem Describes.shiftRightOne (h : Describes em y) : Describes em.shiftRightOne (y / 2) := by
  obtain ⟨rest, hy, h0, hrest, hsticky⟩ := h
  have hm : (em.mantissa : ℚ) = 2 * (em.mantissa / 2 : ℕ) + (em.mantissa % 2 : ℕ) := by
    exact_mod_cast (Nat.div_add_mod em.mantissa 2).symm
  have hbit : (em.mantissa % 2 != 0).toNat = em.mantissa % 2 := by
    rcases Nat.mod_two_eq_zero_or_one em.mantissa with h | h <;> rw [h] <;> rfl
  refine ⟨(em.roundBit.toNat / 2 + rest) / 2, ?_, by positivity, ?_, ?_⟩
  · simp only [ExtendedMantissa.shiftRightOne, hbit, hy]
    linarith
  · cases em.roundBit <;> simp <;> linarith
  · cases hround : em.roundBit with
    | false => simp [ExtendedMantissa.shiftRightOne, hround, hsticky]
    | true =>
      have hpos : (0 : ℚ) < 1 / 2 + rest := by linarith
      simpa [ExtendedMantissa.shiftRightOne, hround] using hpos.ne'

theorem Describes.shiftRight (h : Describes em y) (k : ℕ) : Describes (em >>> k) (y / 2 ^ k) := by
  induction k with
  | zero =>
    rw [pow_zero, div_one]
    exact h
  | succ k ih =>
    rw [pow_succ, ← div_div]
    exact ih.shiftRightOne

/-- Rounding by the two bits is rounding to the nearest whole number. -/
theorem Describes.rounded (h : Describes em y) : evenRound y = em.roundedMantissa := by
  obtain ⟨q, b, sticky⟩ := em
  obtain ⟨rest, rfl, h0, hrest, hsticky⟩ := h
  cases b with
  | false =>
    have hq : evenRound (q + false.toNat / 2 + rest) = q := by
      refine evenRound_eq (.inl ?_)
      rw [Bool.toNat_false, abs_lt]
      push_cast
      constructor <;> linarith
    rw [hq]
    cases sticky <;> rfl
  | true =>
    cases sticky with
    | false =>
      rw [hsticky.mp rfl]
      change evenRound _ = ((q + q % 2 : ℕ) : ℤ)
      refine evenRound_eq (.inr ⟨?_, by omega⟩)
      rw [Bool.toNat_true, abs_eq (by norm_num)]
      rcases Nat.mod_two_eq_zero_or_one q with h | h <;> rw [h] <;> push_cast
      · right
        ring
      · left
        ring
    | true =>
      have hpos : 0 < rest := h0.lt_of_ne' fun h ↦ by simp [h] at hsticky
      change evenRound _ = ((q + 1 : ℕ) : ℤ)
      refine evenRound_eq (.inl ?_)
      rw [Bool.toNat_true, abs_lt]
      push_cast
      constructor <;> linarith

end

theorem targetExponent_of_floor {m : ℕ} (hm : 0 < m) {e : ℤ} {q : ℚ} (hle : m * 2 ^ e ≤ q)
    (hlt : q < (m + 1) * 2 ^ e) :
    Format.binary64.targetExponent (totalExponent m e) = grain q := by
  have hpos : (0 : ℚ) < 2 ^ e := zpow_pos two_pos _
  have hm' : (0 : ℚ) < m := by exact_mod_cast hm
  have hq : 0 < q := (mul_pos hm' hpos).trans_le hle
  have hlog : Int.log 2 |q| = m.log2 + e := by
    rw [abs_of_pos hq]
    refine le_antisymm ?_ ?_
    · rw [← Int.lt_add_one_iff, ← Int.lt_zpow_iff_log_lt one_lt_two hq, Nat.cast_ofNat,
        add_right_comm, zpow_add₀ two_ne_zero]
      refine hlt.trans_le (mul_le_mul_of_nonneg_right ?_ hpos.le)
      exact_mod_cast Nat.succ_le_of_lt Nat.lt_log2_self
    · rw [← Int.zpow_le_iff_le_log one_lt_two hq, Nat.cast_ofNat, zpow_add₀ two_ne_zero]
      refine le_trans (mul_le_mul_of_nonneg_right ?_ hpos.le) hle
      exact_mod_cast Nat.log2_self_le hm.ne'
  rw [grain, hlog]
  simp only [Format.targetExponent, totalExponent, Format.mantissaBits, Format.minExponent]
  omega

theorem targetExponent_eq {m : ℕ} (hm : 0 < m) (e : ℤ) :
    Format.binary64.targetExponent (totalExponent m e) = grain (m * 2 ^ e) :=
  targetExponent_of_floor hm le_rfl
    (mul_lt_mul_of_pos_right (lt_add_one _) (zpow_pos two_pos _))

/-- A mantissa of at most `2 ^ 53` needs no more rounding, but may have to be halved. -/
theorem shiftToTargetExponent_eq {r : ℕ} {t : ℤ} (hr : r ≤ 2 ^ 53) (ht : -1074 ≤ t) :
    shiftToTargetExponent .binary64 r t .exact =
      if r < 2 ^ 53 then (⟨r, false, false⟩, t) else (⟨2 ^ 52, false, false⟩, t + 1) := by
  split
  case isTrue hlt =>
    have hlog : r.log2 < 53 := by
      rcases r.eq_zero_or_pos with rfl | hpos
      · decide
      · exact (Nat.log2_lt hpos.ne').mpr hlt
    have hshift : (Format.binary64.targetExponent (totalExponent r t) - t).toNat = 0 := by
      simp only [Format.targetExponent, totalExponent, Format.mantissaBits, Format.minExponent]
      omega
    simp only [shiftToTargetExponent, shiftToExponent, hshift]
    exact Prod.ext rfl (add_zero t)
  case isFalse hge =>
    obtain rfl : r = 2 ^ 53 := by omega
    have hshift : (Format.binary64.targetExponent (totalExponent (2 ^ 53) t) - t).toNat = 1 := by
      simp only [Format.targetExponent, totalExponent, Format.mantissaBits, Format.minExponent,
        Nat.log2_two_pow]
      omega
    simp only [shiftToTargetExponent, shiftToExponent, hshift]
    rfl

theorem cast_apply (s : Sign) (m : ℕ) : ((s.apply m : ℤ) : ℚ) = s.apply 1 * m := by
  cases s <;> simp [Sign.apply]

theorem toDouble_apply (s : Sign) (q : ℚ) : toDouble (s.apply 1 * q) = s.apply 1 * toDouble q := by
  cases s with
  | positive => simp [Sign.apply]
  | negative => simp [Sign.apply, toDouble_neg]

/-- What a mantissa with its accuracy describes, in units of its exponent, is rounded to the nearest
double. -/
theorem roundWithAccuracy_describes (s : Sign) {m : ℕ} {e : ℤ} {accuracy : Accuracy} {q : ℚ}
    (hq : 0 < q) (h : Describes (.ofMantissaAndAccuracy m accuracy) (q / 2 ^ e))
    (htarget : Format.binary64.targetExponent (totalExponent m e) = grain q) (he : e ≤ grain q) :
    Represents (s.apply 1 * toDouble q) (roundWithAccuracy .binary64 s m e accuracy) := by
  obtain ⟨k, hk⟩ := Int.le.dest he
  have hscaled : q / 2 ^ e / 2 ^ k = q / 2 ^ grain q := by
    rw [← hk, zpow_add₀ two_ne_zero, zpow_natCast, div_div]
  have hround := (h.shiftRight k).rounded
  have hshift : shiftToTargetExponent .binary64 m e accuracy =
      (ExtendedMantissa.ofMantissaAndAccuracy m accuracy >>> k, grain q) := by
    simp only [shiftToTargetExponent, htarget, shiftToExponent, ← hk, add_sub_cancel_left,
      Int.toNat_natCast]
  rw [roundWithAccuracy, hshift]
  dsimp only
  generalize (ExtendedMantissa.ofMantissaAndAccuracy m accuracy >>> k).roundedMantissa = r at hround ⊢
  have hvalue : s.apply 1 * toDouble q = s.apply r * 2 ^ grain q := by
    rw [toDouble, ← hscaled, hround, Int.cast_natCast, cast_apply s r, mul_assoc]
  have hbounds := evenRound_grains hq
  have hleast : -1074 ≤ grain q := le_max_right _ _
  rw [← hscaled, hround] at hbounds
  rw [hvalue]
  generalize grain q = t at hbounds hleast ⊢
  have hr : r ≤ 2 ^ 53 := by exact_mod_cast hbounds.1
  have hfull : 2 ^ 52 ≤ r ∨ t = -1074 := hbounds.2.imp_left fun h ↦ by exact_mod_cast h
  rw [shiftToTargetExponent_eq hr hleast]
  by_cases hlt : r < 2 ^ 53
  · simp only [if_pos hlt]
    split
    case isTrue hzero =>
      have hnone : (s.apply r * 2 ^ t : ℚ) = 0 := by
        rw [hzero]
        cases s <;> simp [Sign.apply]
      rw [hnone]
      exact .zero s
    case isFalse hne =>
      exact .finite s _ ⟨hlt, hleast, hfull⟩
  · simp only [if_neg hlt]
    obtain rfl : r = 2 ^ 53 := by omega
    have hhalved : (s.apply (2 ^ 53 : ℕ) * 2 ^ t : ℚ) = s.apply (2 ^ 52 : ℕ) * 2 ^ (t + 1) := by
      rw [zpow_add₀ two_ne_zero]
      cases s <;> simp only [Sign.apply] <;> push_cast <;> ring
    rw [hhalved]
    exact .finite s _ ⟨by omega, by omega, .inl le_rfl⟩

theorem roundWithAccuracy_represents (s : Sign) {m : ℕ} {e : ℤ} (hm : 0 < m)
    (he : e ≤ grain (m * 2 ^ e)) :
    Represents (toDouble (s.apply m * 2 ^ e)) (roundWithAccuracy .binary64 s m e .exact) := by
  have hpos : (0 : ℚ) < 2 ^ e := zpow_pos two_pos _
  have hq : (0 : ℚ) < m * 2 ^ e := mul_pos (by exact_mod_cast hm) hpos
  have hdescribes : Describes ⟨m, false, false⟩ (m * 2 ^ e / 2 ^ e) := by
    rw [mul_div_cancel_right₀ _ hpos.ne']
    exact describes_exact m
  rw [cast_apply, mul_assoc, toDouble_apply]
  exact roundWithAccuracy_describes s hq hdescribes (targetExponent_eq hm e) he

end SystemDynamics.Number
