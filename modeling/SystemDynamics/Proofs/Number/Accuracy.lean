import SystemDynamics.Proofs.Number.Powers
import SystemDynamics.Proofs.Number.Shortest

namespace SystemDynamics.Number

/-- Off a positive number by at most `n` parts in `2 ^ 53` of it. -/
def Off (n : ℕ) (exact q : ℚ) : Prop :=
  |q - exact| ≤ n * 2 ^ (-53 : ℤ) * exact

theorem off_toDouble {k : ℕ} (hk : 0 < k) : Off 1 k (toDouble k) := by
  rw [Off, Nat.cast_one, one_mul, mul_comm]
  exact abs_toDouble_natCast_sub_le hk

variable {n : ℕ} {c d p q : ℚ}

section

variable (hc : 0 < c) (hd : 0 < d)

include hc hd

theorem Off.mul (h : Off 1 c p) (h' : Off 1 d q) : Off 3 (c * d) (p * q) := by
  have hsmall : (2 : ℚ) ^ (-53 : ℤ) ≤ 1 := by norm_num
  have hpos : (0 : ℚ) < 2 ^ (-53 : ℤ) := by positivity
  rw [Off, Nat.cast_one, one_mul] at h h'
  rw [Off, Nat.cast_ofNat]
  generalize (2 : ℚ) ^ (-53 : ℤ) = u at *
  have hsplit : p * q - c * d = (p - c) * (q - d) + (c * (q - d) + d * (p - c)) := by ring
  have hboth : |p - c| * |q - d| ≤ u * c * (u * d) :=
    mul_le_mul h h' (abs_nonneg _) (by positivity)
  have hfirst := mul_le_mul_of_nonneg_left h' hc.le
  have hsecond := mul_le_mul_of_nonneg_left h hd.le
  have hsquare : u * c * (u * d) ≤ u * (c * d) := by
    have := mul_le_mul_of_nonneg_right hsmall (by positivity : 0 ≤ u * (c * d))
    linarith
  calc |p * q - c * d| ≤ |p - c| * |q - d| + (c * |q - d| + d * |p - c|) := by
        rw [hsplit]
        refine (abs_add_le _ _).trans (add_le_add (abs_mul _ _).le ((abs_add_le _ _).trans_eq ?_))
        rw [abs_mul, abs_mul, abs_of_pos hc, abs_of_pos hd]
    _ ≤ 3 * u * (c * d) := by linarith

theorem Off.div (hn : n ≤ 8) (h : Off n c p) (h' : Off 1 d q) : Off (n + 2) (c / d) (p / q) := by
  have hn' : (n : ℚ) ≤ 8 := by exact_mod_cast hn
  have hsmall : (2 : ℚ) ^ (-53 : ℤ) ≤ 1 / 10 := by norm_num
  have hpos : (0 : ℚ) < 2 ^ (-53 : ℤ) := by positivity
  rw [Off] at h
  rw [Off, Nat.cast_one, one_mul] at h'
  rw [Off, Nat.cast_add, Nat.cast_ofNat]
  generalize (2 : ℚ) ^ (-53 : ℤ) = u at *
  have hclose : d - u * d ≤ q := by linarith [(abs_le.mp h').1]
  have hqpos : 0 < q := by
    have := mul_le_mul_of_nonneg_right hsmall hd.le
    linarith
  have hratio : (n + 1) * d ≤ (n + 2) * q := by
    have hle : (n + 2) * (u * d) ≤ d := by
      have := mul_le_mul (by linarith : (n + 2 : ℚ) ≤ 10)
        (mul_le_mul_of_nonneg_right hsmall hd.le) (by positivity) (by norm_num)
      linarith
    have := mul_le_mul_of_nonneg_left hclose (by positivity : (0 : ℚ) ≤ n + 2)
    linarith
  rw [div_sub_div _ _ hqpos.ne' hd.ne', abs_div, abs_of_pos (mul_pos hqpos hd),
    div_le_iff₀ (mul_pos hqpos hd)]
  have hsplit : p * d - q * c = (p - c) * d - c * (q - d) := by ring
  calc |p * d - q * c| ≤ |p - c| * d + c * |q - d| := by
        rw [hsplit]
        refine (abs_sub _ _).trans_eq ?_
        rw [abs_mul, abs_mul, abs_of_pos hc, abs_of_pos hd]
    _ ≤ n * u * c * d + c * (u * d) :=
        add_le_add (mul_le_mul_of_nonneg_right h hd.le) (mul_le_mul_of_nonneg_left h' hc.le)
    _ = u * c * ((n + 1) * d) := by ring
    _ ≤ u * c * ((n + 2) * q) := mul_le_mul_of_nonneg_left hratio (by positivity)
    _ = (n + 2) * u * (c / d) * (q * d) := by
        field_simp

end

theorem Off.rounded (h : Off 3 c p) (hc : 0 < c) (hsmall : 2 ^ (-1075 : ℤ) ≤ 3 * 2 ^ (-53 : ℤ) * c) :
    Off 6 c (toDouble p) := by
  have htiny : (2 : ℚ) ^ (-53 : ℤ) ≤ 1 / 10 := by norm_num
  have hpos : (0 : ℚ) < 2 ^ (-53 : ℤ) := by positivity
  have hrounded := abs_toDouble_sub_le_max p
  rw [Off, Nat.cast_ofNat] at h ⊢
  generalize (2 : ℚ) ^ (-53 : ℤ) = u at *
  have habs : |p| ≤ 2 * c := by
    have := abs_sub_abs_le_abs_sub p c
    have := mul_le_mul_of_nonneg_right htiny hc.le
    rw [abs_of_pos hc] at *
    linarith
  have hmax : max (|p| * u) (2 ^ (-1075 : ℤ)) ≤ 3 * u * c := by
    refine max_le ?_ hsmall
    have := mul_le_mul_of_nonneg_right habs hpos.le
    have : 0 < u * c := mul_pos hpos hc
    linarith
  have := abs_sub_le (toDouble p) p c
  linarith

theorem Off.mono (h : Off n c p) (hc : 0 < c) {k : ℕ} (hk : n ≤ k) : Off k c p := by
  refine h.trans (mul_le_mul_of_nonneg_right (mul_le_mul_of_nonneg_right ?_ ?_) hc.le)
  · exact_mod_cast hk
  · positivity

/-- Rounded to a double, the result is no more than ten grains away from the double that the exact
number is near to. -/
theorem Off.near {m : ℕ} {e : ℤ} (h : Off 8 c p) (hnear : Near m e c) (hm : 0 < m)
    (hcanonical : Canonical m e) : |toDouble p - m * 2 ^ e| ≤ 10 * 2 ^ e := by
  have hgrain : (0 : ℚ) < 2 ^ e := zpow_pos two_pos _
  have hc := hnear.pos hm
  have hpart : 2 ^ (-53 : ℤ) * c ≤ (2 : ℚ) ^ e := by
    have hbound : c ≤ 2 ^ 53 * 2 ^ e := by
      have hupper := hnear.upper
      have hsize : (m + 1 : ℚ) * 2 ^ e ≤ 2 ^ 53 * 2 ^ e :=
        mul_le_mul_of_nonneg_right (by exact_mod_cast hcanonical.lt) hgrain.le
      linarith
    refine (mul_le_mul_of_nonneg_left hbound (by positivity)).trans_eq ?_
    rw [← mul_assoc]
    norm_num
  have hoff : |p - c| ≤ 8 * 2 ^ e := by
    rw [Off, Nat.cast_ofNat] at h
    linarith
  have hrounded : |toDouble p - p| ≤ 3 / 2 * 2 ^ e := by
    refine (abs_toDouble_sub_le_max p).trans (max_le ?_ ?_)
    · have habs := abs_sub_abs_le_abs_sub p c
      rw [abs_of_pos hc] at habs
      have hscaled := mul_le_mul_of_nonneg_right (by linarith : |p| ≤ c + 8 * 2 ^ e)
        (by positivity : (0 : ℚ) ≤ 2 ^ (-53 : ℤ))
      have hsmall := mul_le_mul_of_nonneg_right
        (by norm_num : (2 : ℚ) ^ (-53 : ℤ) ≤ 1 / 16) hgrain.le
      generalize (2 : ℚ) ^ (-53 : ℤ) = u at *
      linarith
    · have hleast : (2 : ℚ) ^ (-1075 : ℤ) ≤ 2 ^ e := zpow_le_zpow_right₀ one_le_two (by
        have := hcanonical.least
        omega)
      linarith
  -- Half a grain from the digits, eight from the roundings before, the rest from the last.
  have hwritten := hnear.abs_sub_le
  have hfirst := abs_sub_le (toDouble p) p (m * 2 ^ e)
  have hsecond := abs_sub_le p c (m * 2 ^ e)
  linarith

end SystemDynamics.Number
