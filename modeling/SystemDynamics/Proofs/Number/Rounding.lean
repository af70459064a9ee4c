import Mathlib.Algebra.Order.Floor.Ring
import Mathlib.Algebra.Order.Round
import Mathlib.Data.Int.Log
import Mathlib.Data.Rat.Floor
import Mathlib.Tactic.Linarith
import Mathlib.Tactic.Positivity
import Mathlib.Tactic.Ring

namespace SystemDynamics.Number

def evenRound (q : ℚ) : ℤ :=
  if Int.fract q < 1 / 2 then ⌊q⌋
  else if 1 / 2 < Int.fract q then ⌊q⌋ + 1
  else ⌊q⌋ + ⌊q⌋ % 2

theorem evenRound_nearest (q : ℚ) :
    |evenRound q - q| < 1 / 2 ∨ |evenRound q - q| = 1 / 2 ∧ evenRound q % 2 = 0 := by
  have hq := Int.floor_add_fract q
  have hnonneg := Int.fract_nonneg q
  have hlt := Int.fract_lt_one q
  rw [evenRound]
  split_ifs with hbelow habove
  · left
    rw [abs_lt]
    constructor <;> linarith
  · left
    push_cast
    rw [abs_lt]
    constructor <;> linarith
  · right
    have hhalf : Int.fract q = 1 / 2 := le_antisymm (not_lt.mp habove) (not_lt.mp hbelow)
    refine ⟨?_, by omega⟩
    rw [abs_eq (by norm_num)]
    rcases Int.emod_two_eq_zero_or_one ⌊q⌋ with h | h <;> rw [h] <;> push_cast
    · right
      linarith
    · left
      linarith

theorem abs_evenRound_sub_le (q : ℚ) : |evenRound q - q| ≤ 1 / 2 :=
  (evenRound_nearest q).elim le_of_lt fun h ↦ h.1.le

theorem evenRound_mono {p q : ℚ} (h : p ≤ q) : evenRound p ≤ evenRound q := by
  by_contra hlt
  have hstep : (evenRound q : ℚ) + 1 ≤ evenRound p := by exact_mod_cast not_le.mp hlt
  have hp := abs_le.mp (abs_evenRound_sub_le p)
  have hq := abs_le.mp (abs_evenRound_sub_le q)
  have heq : p = q := by linarith
  rw [heq] at hlt
  exact hlt le_rfl

theorem evenRound_eq {q : ℚ} {n : ℤ} (h : |n - q| < 1 / 2 ∨ |n - q| = 1 / 2 ∧ n % 2 = 0) :
    evenRound q = n := by
  have hq := Int.floor_add_fract q
  have hnonneg := Int.fract_nonneg q
  have hlt := Int.fract_lt_one q
  have hle : |n - q| ≤ 1 / 2 := h.elim le_of_lt fun h ↦ h.1.le
  obtain ⟨hlow, hhigh⟩ := abs_le.mp hle
  have hcases : n = ⌊q⌋ ∨ n = ⌊q⌋ + 1 := by
    have hl : (⌊q⌋ : ℚ) < n + 1 := by linarith
    have hh : (n : ℚ) < ⌊q⌋ + 2 := by linarith
    norm_cast at hl hh
    omega
  rw [evenRound]
  rcases hcases with rfl | rfl
  · split_ifs with hbelow habove
    · rfl
    · exfalso
      linarith
    · have hhalf : Int.fract q = 1 / 2 := le_antisymm (not_lt.mp habove) (not_lt.mp hbelow)
      have heven : ⌊q⌋ % 2 = 0 := by
        rcases h with h | h
        · exact absurd (abs_lt.mp h).1 (by linarith)
        · exact h.2
      rw [heven, add_zero]
  · push_cast at hlow hhigh h
    split_ifs with hbelow habove
    · exfalso
      linarith
    · rfl
    · have hhalf : Int.fract q = 1 / 2 := le_antisymm (not_lt.mp habove) (not_lt.mp hbelow)
      have heven : (⌊q⌋ + 1) % 2 = 0 := by
        rcases h with h | h
        · exact absurd (abs_lt.mp h).2 (by linarith)
        · exact h.2
      omega

theorem evenRound_intCast (n : ℤ) : evenRound n = n :=
  evenRound_eq (.inl (by simp))

theorem evenRound_neg (q : ℚ) : evenRound (-q) = -evenRound q := by
  refine evenRound_eq ?_
  have hdistance : |((-evenRound q : ℤ) : ℚ) - -q| = |evenRound q - q| := by
    rw [← abs_neg]
    congr 1
    push_cast
    ring
  rw [hdistance]
  exact (evenRound_nearest q).imp_right fun h ↦ ⟨h.1, by omega⟩

/-- The distance, as a power of two, between the doubles around a number. -/
def grain (q : ℚ) : ℤ :=
  max (Int.log 2 |q| - 52) (-1074)

/-- The nearest number that is a whole multiple of the grain. -/
def toDouble (q : ℚ) : ℚ :=
  evenRound (q / 2 ^ grain q) * 2 ^ grain q

theorem grain_neg (q : ℚ) : grain (-q) = grain q := by
  rw [grain, grain, abs_neg]

theorem toDouble_neg (q : ℚ) : toDouble (-q) = -toDouble q := by
  rw [toDouble, toDouble, grain_neg, neg_div, evenRound_neg]
  push_cast
  ring

theorem toDouble_zero : toDouble 0 = 0 := by
  have h := evenRound_intCast 0
  rw [Int.cast_zero] at h
  rw [toDouble, zero_div, h, Int.cast_zero, zero_mul]

theorem abs_lt_grain (q : ℚ) : |q| < 2 ^ (grain q + 53) := by
  have hlog := Int.lt_zpow_succ_log_self one_lt_two |q|
  rw [Nat.cast_ofNat] at hlog
  refine hlog.trans_le (zpow_le_zpow_right₀ one_le_two ?_)
  rw [grain]
  omega

theorem grain_le_abs {q : ℚ} (hq : q ≠ 0) : 2 ^ (grain q + 52) ≤ |q| ∨ grain q = -1074 := by
  have hlog := Int.zpow_log_le_self one_lt_two (abs_pos.mpr hq)
  rw [Nat.cast_ofNat] at hlog
  rcases le_total (Int.log 2 |q| - 52) (-1074) with h | h
  · exact .inr (max_eq_right h)
  · left
    rwa [grain, max_eq_left h, sub_add_cancel]

theorem grain_eq {q : ℚ} {e : ℤ} (hq : q ≠ 0) (hlt : |q| < 2 ^ (e + 53)) (hleast : -1074 ≤ e)
    (hle : 2 ^ (e + 52) ≤ |q| ∨ e = -1074) : grain q = e := by
  have hupper := (Int.lt_zpow_iff_log_lt one_lt_two (abs_pos.mpr hq)).mp
    (by rwa [Nat.cast_ofNat])
  rw [grain]
  rcases hle with hle | rfl
  · have hlower := (Int.zpow_le_iff_le_log one_lt_two (abs_pos.mpr hq)).mp
      (by rwa [Nat.cast_ofNat])
    omega
  · omega

theorem grain_le {q : ℚ} {e : ℤ} (hq : q ≠ 0) (hlt : |q| < 2 ^ (e + 53)) (hleast : -1074 ≤ e) :
    grain q ≤ e := by
  have hupper := (Int.lt_zpow_iff_log_lt one_lt_two (abs_pos.mpr hq)).mp
    (by rwa [Nat.cast_ofNat])
  rw [grain]
  omega

theorem le_grain {q : ℚ} {e : ℤ} (h : 2 ^ (e + 52) ≤ |q|) : e ≤ grain q := by
  have hpos : 0 < |q| := (zpow_pos two_pos _).trans_le h
  have hlower := (Int.zpow_le_iff_le_log one_lt_two hpos).mp (by rwa [Nat.cast_ofNat])
  rw [grain]
  omega

/-- The grains in a positive number, rounded, fill fifty-three bits or just overflow them. -/
theorem evenRound_grains {q : ℚ} (hq : 0 < q) :
    evenRound (q / 2 ^ grain q) ≤ 2 ^ 53 ∧
      (2 ^ 52 ≤ evenRound (q / 2 ^ grain q) ∨ grain q = -1074) := by
  have hpos : (0 : ℚ) < 2 ^ grain q := zpow_pos two_pos _
  have hlt := abs_lt_grain q
  have hle := grain_le_abs hq.ne'
  rw [abs_of_pos hq, add_comm, zpow_add₀ two_ne_zero] at hlt
  rw [abs_of_pos hq, add_comm, zpow_add₀ two_ne_zero] at hle
  constructor
  · have hupper : q / 2 ^ grain q ≤ ((2 ^ 53 : ℤ) : ℚ) := by
      rw [div_le_iff₀ hpos]
      exact_mod_cast hlt.le
    exact (evenRound_mono hupper).trans_eq (evenRound_intCast _)
  · refine hle.imp_left ?_
    intro hle
    have hlower : ((2 ^ 52 : ℤ) : ℚ) ≤ q / 2 ^ grain q := by
      rw [le_div_iff₀ hpos]
      exact_mod_cast hle
    exact (evenRound_intCast _).symm.trans_le (evenRound_mono hlower)

theorem toDouble_of_multiple {n : ℤ} {e : ℤ} (he : grain (n * 2 ^ e) = e) :
    toDouble (n * 2 ^ e) = n * 2 ^ e := by
  rw [toDouble, he, mul_div_cancel_right₀ _ (zpow_ne_zero _ two_ne_zero), evenRound_intCast]

theorem toDouble_of_lt {n : ℕ} (hn : n < 2 ^ 53) {e : ℤ} (he : -1074 ≤ e) :
    toDouble (n * 2 ^ e) = n * 2 ^ e := by
  rcases n.eq_zero_or_pos with rfl | hpos
  · rw [Nat.cast_zero, zero_mul, toDouble_zero]
  have hq : (0 : ℚ) < n * 2 ^ e := mul_pos (by exact_mod_cast hpos) (zpow_pos two_pos _)
  have hle : grain (n * 2 ^ e) ≤ e := by
    refine grain_le hq.ne' ?_ he
    rw [abs_of_pos hq, add_comm, zpow_add₀ two_ne_zero]
    exact mul_lt_mul_of_pos_right (by exact_mod_cast hn) (zpow_pos two_pos _)
  obtain ⟨k, hk⟩ := Int.le.dest hle
  have hmultiple : (n * 2 ^ e : ℚ) = (n * 2 ^ k : ℕ) * 2 ^ grain (n * 2 ^ e) := by
    conv_lhs => rw [← hk, zpow_add₀ two_ne_zero, zpow_natCast]
    push_cast
    ring
  have hround := toDouble_of_multiple (n := (n * 2 ^ k : ℕ)) (e := grain (n * 2 ^ e))
  rw [Int.cast_natCast, ← hmultiple] at hround
  exact hround rfl

/-- The multiple of the grain that is nearest, the even one of two. -/
theorem toDouble_eq_of_near {q : ℚ} {n t : ℤ} (ht : grain q = t)
    (h : |q - n * 2 ^ t| < 2 ^ t / 2 ∨ |q - n * 2 ^ t| = 2 ^ t / 2 ∧ n % 2 = 0) :
    toDouble q = n * 2 ^ t := by
  have hpos : (0 : ℚ) < 2 ^ t := zpow_pos two_pos _
  have hscaled : |n - q / 2 ^ t| = |q - n * 2 ^ t| / 2 ^ t := by
    rw [abs_sub_comm, ← abs_of_pos hpos, ← abs_div, abs_of_pos hpos, sub_div,
      mul_div_cancel_right₀ _ hpos.ne']
  rw [toDouble, ht]
  congr 2
  refine evenRound_eq ?_
  rw [hscaled]
  refine h.imp (fun h ↦ ?_) fun h ↦ ⟨?_, h.2⟩
  · rw [div_lt_iff₀ hpos]
    linarith
  · rw [div_eq_iff hpos.ne']
    linarith

theorem abs_toDouble_sub_le (q : ℚ) : |toDouble q - q| ≤ 2 ^ grain q / 2 := by
  have hpos : (0 : ℚ) < 2 ^ grain q := zpow_pos two_pos _
  have hscale : toDouble q - q = (evenRound (q / 2 ^ grain q) - q / 2 ^ grain q) * 2 ^ grain q := by
    rw [sub_mul, div_mul_cancel₀ _ hpos.ne', toDouble]
  rw [hscale, abs_mul, abs_of_pos hpos]
  have h := mul_le_mul_of_nonneg_right (abs_evenRound_sub_le (q / 2 ^ grain q)) hpos.le
  linarith

/-- Rounding moves a number by little of itself, or by no more than half of the smallest double. -/
theorem abs_toDouble_sub_le_max (q : ℚ) :
    |toDouble q - q| ≤ max (|q| * 2 ^ (-53 : ℤ)) (2 ^ (-1075 : ℤ)) := by
  rcases eq_or_ne q 0 with rfl | hq
  · rw [toDouble_zero, sub_zero, abs_zero, zero_mul]
    exact le_max_left _ _
  refine (abs_toDouble_sub_le q).trans ?_
  have hhalf : (2 : ℚ) ^ grain q / 2 = 2 ^ (grain q - 1) := by
    rw [zpow_sub_one₀ two_ne_zero, div_eq_mul_inv]
  rw [hhalf]
  rcases grain_le_abs hq with hle | hle
  · refine le_max_of_le_left ?_
    have hsplit : (2 : ℚ) ^ (grain q - 1) = 2 ^ (grain q + 52) * 2 ^ (-53 : ℤ) := by
      rw [← zpow_add₀ two_ne_zero]
      congr 1
      omega
    rw [hsplit]
    exact mul_le_mul_of_nonneg_right hle (zpow_pos two_pos _).le
  · rw [hle]
    exact le_max_right _ _

theorem abs_toDouble_sub_le_mul {q : ℚ} (hq : 2 ^ (-1022 : ℤ) ≤ q) :
    |toDouble q - q| ≤ q * 2 ^ (-53 : ℤ) := by
  have hpos : 0 < q := (zpow_pos two_pos _).trans_le hq
  refine (abs_toDouble_sub_le_max q).trans (max_le ?_ ?_)
  · rw [abs_of_pos hpos]
  · have hsplit : (2 : ℚ) ^ (-1075 : ℤ) = 2 ^ (-1022 : ℤ) * 2 ^ (-53 : ℤ) := by
      rw [← zpow_add₀ two_ne_zero]
      norm_num
    rw [hsplit]
    exact mul_le_mul_of_nonneg_right hq (zpow_pos two_pos _).le

theorem abs_toDouble_lt {q : ℚ} (h : |q| < 2 ^ (1024 : ℤ) - 2 ^ (970 : ℤ)) :
    |toDouble q| < 2 ^ (1024 : ℤ) := by
  rcases eq_or_ne q 0 with rfl | hq
  · rw [toDouble_zero, abs_zero]
    exact zpow_pos two_pos _
  have hlt : |q| < 2 ^ (971 + 53 : ℤ) := h.trans (sub_lt_self _ (zpow_pos two_pos _))
  have hgrain : (2 : ℚ) ^ grain q ≤ 2 ^ (970 + 1 : ℤ) :=
    zpow_le_zpow_right₀ one_le_two (grain_le hq hlt (by omega))
  have herror := abs_toDouble_sub_le q
  have htriangle := abs_sub_abs_le_abs_sub (toDouble q) q
  rw [zpow_add_one₀ two_ne_zero] at hgrain
  linarith

theorem abs_toDouble_le {q : ℚ} {N : ℤ} (hN : -1074 ≤ N) (h : |q| ≤ 2 ^ N) :
    |toDouble q| ≤ 2 ^ N := by
  rcases eq_or_ne q 0 with rfl | hq
  · rw [toDouble_zero, abs_zero]
    positivity
  have hpos : (0 : ℚ) < 2 ^ grain q := zpow_pos two_pos _
  have hgrain : grain q ≤ N := by
    rcases grain_le_abs hq with hle | hle
    · have := (zpow_le_zpow_iff_right₀ (one_lt_two (α := ℚ))).mp (hle.trans h)
      omega
    · omega
  obtain ⟨k, rfl⟩ := Int.le.dest hgrain
  have hscaled : |q / 2 ^ grain q| ≤ ((2 ^ k : ℤ) : ℚ) := by
    rw [abs_div, abs_of_pos hpos, div_le_iff₀ hpos]
    rw [zpow_add₀ two_ne_zero, zpow_natCast, mul_comm] at h
    push_cast
    exact h
  obtain ⟨hlow, hhigh⟩ := abs_le.mp hscaled
  have hupper := evenRound_mono hhigh
  have hlower := evenRound_mono hlow
  rw [evenRound_intCast] at hupper
  rw [evenRound_neg, evenRound_intCast] at hlower
  rw [toDouble, abs_mul, abs_of_pos hpos, zpow_add₀ two_ne_zero, zpow_natCast,
    mul_comm (2 ^ grain q)]
  refine mul_le_mul_of_nonneg_right ?_ hpos.le
  exact_mod_cast abs_le.mpr ⟨hlower, hupper⟩

end SystemDynamics.Number
