import SystemDynamics.Number.Digits
import SystemDynamics.Proofs.Number.Double

namespace SystemDynamics.Number

/-- The numbers around `m · 2 ^ e` that are rounded to it: up to half way to its neighbours, the
half included if `m` is even. -/
structure Near (m : ℕ) (e : ℤ) (q : ℚ) : Prop where
  lower : m * 2 ^ e - lowerGap m e * 2 ^ e / 4 ≤ q
  upper : q ≤ m * 2 ^ e + 2 ^ e / 2
  even : m % 2 = 0 ∨ m * 2 ^ e - lowerGap m e * 2 ^ e / 4 < q ∧ q < m * 2 ^ e + 2 ^ e / 2

section

variable {m : ℕ} {e : ℤ}

theorem lowerGap_le (m : ℕ) (e : ℤ) : lowerGap m e ≤ 2 := by
  rw [lowerGap]
  split <;> omega

theorem one_le_lowerGap (m : ℕ) (e : ℤ) : 1 ≤ lowerGap m e := by
  rw [lowerGap]
  split <;> omega

theorem lowerGap_mul_le (m : ℕ) (e : ℤ) : lowerGap m e * 2 ^ e ≤ (2 * 2 ^ e : ℚ) :=
  mul_le_mul_of_nonneg_right (by exact_mod_cast lowerGap_le m e) (zpow_pos two_pos _).le

theorem Near.abs_sub_le {q : ℚ} (h : Near m e q) : |q - m * 2 ^ e| ≤ 2 ^ e / 2 := by
  have hgap := lowerGap_mul_le m e
  have hlower := h.lower
  have hupper := h.upper
  rw [abs_le]
  constructor <;> linarith

theorem Near.nearest {q : ℚ} (h : Near m e q) :
    |q - m * 2 ^ e| < 2 ^ e / 2 ∨ |q - m * 2 ^ e| = 2 ^ e / 2 ∧ m % 2 = 0 := by
  have hgap := lowerGap_mul_le m e
  rcases h.even with heven | ⟨hlower, hupper⟩
  · exact (lt_or_eq_of_le h.abs_sub_le).imp_right (⟨·, heven⟩)
  · left
    rw [abs_lt]
    constructor <;> linarith

theorem Near.pos {q : ℚ} (h : Near m e q) (hm : 0 < m) : 0 < q := by
  have hpos : (0 : ℚ) < 2 ^ e := zpow_pos two_pos _
  have hm' : (1 : ℚ) ≤ m := by exact_mod_cast hm
  have hscaled := mul_le_mul_of_nonneg_right hm' hpos.le
  have hlower := (abs_le.mp h.abs_sub_le).1
  linarith

theorem Near.toDouble_below {q : ℚ} (h : Near (2 ^ 52) e q) (he : -1074 < e)
    (hq : q < (2 ^ 52 : ℕ) * 2 ^ e) : toDouble q = (2 ^ 52 : ℕ) * 2 ^ e := by
  have hhalf : (2 : ℚ) ^ e = 2 * 2 ^ (e - 1) := by
    rw [← zpow_one_add₀ two_ne_zero, add_sub_cancel]
  have hpos : (0 : ℚ) < 2 ^ (e - 1) := zpow_pos two_pos _
  have hlower := h.lower
  have hgap : lowerGap (2 ^ 52) e = 1 := if_pos ⟨rfl, he⟩
  rw [hgap, hhalf] at hlower
  rw [hhalf] at hq ⊢
  push_cast at hlower hq
  have hqpos : 0 < q := by linarith
  have hgrain : grain q = e - 1 := by
    refine grain_eq hqpos.ne' ?_ (by omega) (.inl ?_)
    · rw [abs_of_pos hqpos, zpow_add₀ two_ne_zero]
      norm_num
      linarith
    · rw [abs_of_pos hqpos, zpow_add₀ two_ne_zero]
      norm_num
      linarith
  have hnear : |q - (2 ^ 53 : ℤ) * 2 ^ (e - 1)| ≤ 2 ^ (e - 1) / 2 := by
    push_cast
    rw [abs_le]
    constructor <;> linarith
  have hrounded := toDouble_eq_of_near (n := 2 ^ 53) hgrain
    ((lt_or_eq_of_le (by exact_mod_cast hnear)).imp_right (⟨·, by norm_num⟩))
  rw [hrounded]
  push_cast
  ring

theorem Near.toDouble_eq {q : ℚ} (h : Near m e q) (hm : 0 < m) (hcanonical : Canonical m e) :
    toDouble q = m * 2 ^ e := by
  have hpos : (0 : ℚ) < 2 ^ e := zpow_pos two_pos _
  have hq := h.pos hm
  have hleast := hcanonical.least
  have hlow := h.lower
  have hhigh := h.upper
  have hgap := lowerGap_mul_le m e
  have h52 : (2 : ℚ) ^ (e + 52) = 2 ^ 52 * 2 ^ e := by
    rw [zpow_add₀ two_ne_zero, mul_comm]
    norm_num
  have h53 : (2 : ℚ) ^ (e + 53) = 2 ^ 53 * 2 ^ e := by
    rw [zpow_add₀ two_ne_zero, mul_comm]
    norm_num
  have hlt : (m + 1 : ℚ) * 2 ^ e ≤ 2 ^ 53 * 2 ^ e :=
    mul_le_mul_of_nonneg_right (by exact_mod_cast hcanonical.lt) hpos.le
  by_cases hsame : 2 ^ (e + 52) ≤ q ∨ e = -1074
  · have hgrain : grain q = e := by
      refine grain_eq hq.ne' ?_ hleast ?_
      · rw [abs_of_pos hq, h53]
        linarith
      · rwa [abs_of_pos hq]
    have hrounded := toDouble_eq_of_near (n := m) hgrain
      (by exact_mod_cast h.nearest)
    rwa [Int.cast_natCast] at hrounded
  · obtain ⟨hbelow, hnormal⟩ := not_or.mp hsame
    rw [not_le, h52] at hbelow
    have hfull := hcanonical.full.resolve_right hnormal
    have hleading : m = 2 ^ 52 := by
      by_contra hne
      have hnext : (2 ^ 52 + 1 : ℚ) ≤ m := by exact_mod_cast (by omega : 2 ^ 52 + 1 ≤ m)
      have := mul_le_mul_of_nonneg_right hnext hpos.le
      linarith
    subst hleading
    exact h.toDouble_below (by omega) (by exact_mod_cast hbelow)

end

/-- The unit in which distances are counted, four of which make `2 ^ e`, on the grid of `10 ^ p`. -/
def gridUnit (e p : ℤ) : ℕ :=
  Nat.pow 2 e.toNat * Nat.pow 10 (-p).toNat

def gridStep (e p : ℤ) : ℕ :=
  4 * Nat.pow 2 (-e).toNat * Nat.pow 10 p.toNat

/-- A distance within the gap; half way counts for an even number. -/
def Within (m distance gap : ℕ) : Prop :=
  distance < gap ∨ distance = gap ∧ m % 2 = 0

theorem zpow_mul_pow_toNat {a : ℚ} (ha : a ≠ 0) (n : ℤ) : a ^ n * a ^ (-n).toNat = a ^ n.toNat := by
  rw [← zpow_natCast, ← zpow_natCast, ← zpow_add₀ ha]
  congr 1
  omega

theorem gridUnit_pos (e p : ℤ) : 0 < gridUnit e p :=
  Nat.mul_pos (Nat.pow_pos two_pos) (Nat.pow_pos (by decide))

theorem gridStep_pos (e p : ℤ) : 0 < gridStep e p :=
  Nat.mul_pos (Nat.mul_pos (by decide) (Nat.pow_pos two_pos)) (Nat.pow_pos (by decide))

theorem exists_scale (e p : ℤ) :
    ∃ u : ℚ, 0 < u ∧ 4 * gridUnit e p * u = 2 ^ e ∧ gridStep e p * u = 10 ^ p := by
  have hunit : (0 : ℚ) < gridUnit e p := by exact_mod_cast gridUnit_pos e p
  have htwo := zpow_mul_pow_toNat two_ne_zero e
  have hten := zpow_mul_pow_toNat (a := 10) (by norm_num) p
  refine ⟨2 ^ e / (4 * gridUnit e p), by positivity, by field_simp, ?_⟩
  rw [mul_div_assoc', div_eq_iff (by positivity), gridStep, gridUnit]
  simp only [Nat.pow_eq]
  push_cast
  calc (4 * 2 ^ (-e).toNat * 10 ^ p.toNat * 2 ^ e : ℚ)
      = 4 * 10 ^ p.toNat * (2 ^ e * 2 ^ (-e).toNat) := by ring
    _ = 4 * (10 ^ p * 10 ^ (-p).toNat) * 2 ^ e.toNat := by rw [htwo, hten]
    _ = 10 ^ p * (4 * (2 ^ e.toNat * 10 ^ (-p).toNat)) := by ring

section

variable {tie : Tie} {m c : ℕ} {e p : ℤ}

theorem within_iff {distance gap : ℕ} :
    (if m % 2 = 0 then distance ≤ gap else distance < gap) ↔ Within m distance gap := by
  rw [Within]
  split <;> omega

/-- There is a hit just if the double is within the gap below it or above it from a grid point. -/
theorem onGrid?_cases (tie : Tie) (m : ℕ) (e p : ℤ) :
    (onGrid? tie m e p = none ∧
        ¬ Within m (4 * m * gridUnit e p % gridStep e p) (lowerGap m e * gridUnit e p) ∧
        ¬ Within m (gridStep e p - 4 * m * gridUnit e p % gridStep e p) (2 * gridUnit e p)) ∨
      (onGrid? tie m e p = some (4 * m * gridUnit e p / gridStep e p) ∧
        Within m (4 * m * gridUnit e p % gridStep e p) (lowerGap m e * gridUnit e p)) ∨
      (onGrid? tie m e p = some (4 * m * gridUnit e p / gridStep e p + 1) ∧
        Within m (gridStep e p - 4 * m * gridUnit e p % gridStep e p) (2 * gridUnit e p)) := by
  have hunit : Nat.pow 2 e.toNat * Nat.pow 10 (-p).toNat = gridUnit e p := rfl
  have hstep : 4 * Nat.pow 2 (-e).toNat * Nat.pow 10 p.toNat = gridStep e p := rfl
  simp only [onGrid?, hunit, hstep]
  generalize gridUnit e p = unit
  generalize gridStep e p = step
  split
  case h_1 hbelow habove =>
    rw [decide_eq_false_iff_not, within_iff] at hbelow habove
    exact .inl ⟨rfl, hbelow, habove⟩
  case h_2 hbelow _ =>
    rw [decide_eq_true_iff, within_iff] at hbelow
    exact .inr (.inl ⟨rfl, hbelow⟩)
  case h_3 _ habove =>
    rw [decide_eq_true_iff, within_iff] at habove
    exact .inr (.inr ⟨rfl, habove⟩)
  case h_4 hbelow habove =>
    rw [decide_eq_true_iff, within_iff] at hbelow habove
    right
    split
    case isTrue => exact .inl ⟨rfl, hbelow⟩
    case isFalse =>
      split
      case isTrue => exact .inr ⟨rfl, habove⟩
      case isFalse =>
        split
        case isTrue => exact .inr ⟨rfl, habove⟩
        case isFalse => exact .inl ⟨rfl, hbelow⟩

section

variable {u q : ℚ} {distance gap : ℕ} (hu : 0 < u) (h : Within m distance gap)

include hu h

theorem Within.scaled :
    (distance * u ≤ gap * u : Prop) ∧ (m % 2 = 0 ∨ distance * u < gap * u) := by
  rw [mul_le_mul_iff_left₀ hu, mul_lt_mul_iff_left₀ hu, Nat.cast_le, Nat.cast_lt]
  rcases h with hlt | ⟨rfl, heven⟩
  · exact ⟨hlt.le, .inr hlt⟩
  · exact ⟨le_rfl, .inl heven⟩

theorem near_of_below (hgap : lowerGap m e * 2 ^ e / 4 = gap * u)
    (hq : m * 2 ^ e = q + distance * u) : Near m e q := by
  have hpos : (0 : ℚ) < 2 ^ e := zpow_pos two_pos _
  have hdistance : 0 ≤ distance * u := by positivity
  obtain ⟨hle, hlt⟩ := h.scaled hu
  refine ⟨by linarith, by linarith, hlt.imp_right fun hlt ↦ ⟨by linarith, by linarith⟩⟩

theorem near_of_above (hgap : 2 ^ e / 2 = gap * u) (hq : q = m * 2 ^ e + distance * u) :
    Near m e q := by
  have hpos : (0 : ℚ) < 2 ^ e := zpow_pos two_pos _
  have hlower : (1 : ℚ) ≤ lowerGap m e := by exact_mod_cast one_le_lowerGap m e
  have hlower : (0 : ℚ) < lowerGap m e * 2 ^ e / 4 := by positivity
  have hdistance : 0 ≤ distance * u := by positivity
  obtain ⟨hle, hlt⟩ := h.scaled hu
  refine ⟨by linarith, by linarith, hlt.imp_right fun hlt ↦ ⟨by linarith, by linarith⟩⟩

end

theorem onGrid?_near (h : onGrid? tie m e p = some c) : Near m e (c * 10 ^ p) := by
  obtain ⟨u, hu, htwo, hten⟩ := exists_scale e p
  have hmod := Nat.mod_lt (4 * m * gridUnit e p) (gridStep_pos e p)
  have hsplit := Nat.div_add_mod (4 * m * gridUnit e p) (gridStep e p)
  have hcases := onGrid?_cases tie m e p
  rw [h] at hcases
  generalize 4 * m * gridUnit e p / gridStep e p = lower at hsplit hcases
  generalize 4 * m * gridUnit e p % gridStep e p = below at hmod hsplit hcases
  have hvalue : (m * 2 ^ e : ℚ) = lower * 10 ^ p + below * u := by
    have : (gridStep e p * lower + below : ℚ) = 4 * m * gridUnit e p := by exact_mod_cast hsplit
    rw [← htwo, ← hten]
    linear_combination -u * this
  rcases hcases with ⟨hnone, -⟩ | ⟨hlower, hwithin⟩ | ⟨hupper, hwithin⟩
  · cases hnone
  · obtain rfl := Option.some.inj hlower
    refine near_of_below hu hwithin ?_ hvalue
    rw [← htwo]
    push_cast
    ring
  · obtain rfl := Option.some.inj hupper
    refine near_of_above hu hwithin ?_ ?_
    · rw [← htwo]
      push_cast
      ring
    · rw [hvalue, Nat.cast_sub hmod.le, sub_mul, hten]
      push_cast
      ring

theorem onGrid?_eq_none (h : onGrid? tie m e p = none) : 3 * 2 ^ e ≤ (4 * 10 ^ p : ℚ) := by
  obtain ⟨u, hu, htwo, hten⟩ := exists_scale e p
  have hcases := onGrid?_cases tie m e p
  rw [h] at hcases
  have hstep : 3 * gridUnit e p ≤ gridStep e p := by
    rcases hcases with ⟨-, hbelow, habove⟩ | ⟨hsome, -⟩ | ⟨hsome, -⟩
    · have hgap := Nat.mul_le_mul_right (gridUnit e p) (one_le_lowerGap m e)
      rw [Within] at hbelow habove
      omega
    · cases hsome
    · cases hsome
  have hscaled : (3 * gridUnit e p * u : ℚ) ≤ gridStep e p * u :=
    mul_le_mul_of_nonneg_right (by exact_mod_cast hstep) hu.le
  rw [← htwo, ← hten]
  linarith

theorem coarsest_eq {grids : ℕ} {q : ℤ} (hq : p - grids < q) (hqp : q ≤ p)
    (hhit : onGrid? tie m e q ≠ none) :
    ∃ c r, coarsest tie m e grids p = ⟨c, r⟩ ∧ onGrid? tie m e r = some c ∧ q ≤ r ∧ r ≤ p ∧
      (r = p ∨ onGrid? tie m e (r + 1) = none) := by
  induction grids generalizing p with
  | zero => omega
  | succ grids ih =>
    rw [coarsest]
    cases hfirst : onGrid? tie m e p with
    | some c => exact ⟨c, p, rfl, hfirst, hqp, le_rfl, .inl rfl⟩
    | none =>
      have hne : q ≠ p := fun h ↦ hhit (h ▸ hfirst)
      obtain ⟨c, r, hr, hc, hqr, hrp, hcoarser⟩ := ih (p := p - 1) (by omega) (by omega)
      refine ⟨c, r, hr, hc, hqr, by omega, .inr ?_⟩
      rcases hcoarser with rfl | hnone
      · rwa [sub_add_cancel]
      · exact hnone

end

def startGrid (n : ℤ) : ℤ :=
  n * 30103 / 100000 + 1

def StartsWell (n : ℤ) : Prop :=
  2 ^ n.toNat * 10 ^ (-startGrid n).toNat ≤ 10 ^ (startGrid n).toNat * 2 ^ (-n).toNat ∧
    10 ^ (startGrid n).toNat * 2 ^ (-n).toNat ≤ 11 * (2 ^ n.toNat * 10 ^ (-startGrid n).toNat)

instance : DecidablePred StartsWell := fun _ ↦ inferInstanceAs (Decidable (_ ∧ _))

theorem startsWell_sub : ∀ k < 2098, StartsWell ((k : ℕ) - 1073) := by
  have hall : (List.range 2098).all fun k ↦ decide (StartsWell ((k : ℕ) - 1073)) := by
    decide +kernel
  intro k hk
  exact of_decide_eq_true (List.all_eq_true.mp hall k (List.mem_range.mpr hk))

theorem startGrid_bounds {n : ℤ} (hn : -1073 ≤ n) (hn' : n ≤ 1024) :
    (2 ^ n : ℚ) ≤ 10 ^ startGrid n ∧ (10 ^ startGrid n : ℚ) ≤ 11 * 2 ^ n := by
  have hwell := startsWell_sub (n + 1073).toNat (by omega)
  have hcast : ((n + 1073).toNat : ℤ) - 1073 = n := by omega
  rw [hcast] at hwell
  obtain ⟨hle, hge⟩ := hwell
  have htwo := zpow_mul_pow_toNat two_ne_zero n
  have hten := zpow_mul_pow_toNat (a := 10) (by norm_num) (startGrid n)
  generalize startGrid n = p at *
  have hle : (2 ^ n.toNat * 10 ^ (-p).toNat : ℚ) ≤ 10 ^ p.toNat * 2 ^ (-n).toNat := by
    exact_mod_cast hle
  have hge : (10 ^ p.toNat * 2 ^ (-n).toNat : ℚ) ≤ 11 * (2 ^ n.toNat * 10 ^ (-p).toNat) := by
    exact_mod_cast hge
  have hpos : (0 : ℚ) < 2 ^ (-n).toNat * 10 ^ (-p).toNat := by positivity
  rw [← htwo, ← hten] at hle hge
  constructor
  · refine le_of_mul_le_mul_right ?_ hpos
    linarith
  · refine le_of_mul_le_mul_right ?_ hpos
    linarith

def ceilingPower (m : ℕ) (e : ℤ) : ℤ :=
  m.log2 + 1 + e

theorem ceilingPower_bounds {m : ℕ} {e : ℤ} (hm : 0 < m) (h : Canonical m e) (he : e ≤ 971) :
    -1073 ≤ ceilingPower m e ∧ ceilingPower m e ≤ 1024 ∧
      (m + 1 : ℚ) * 2 ^ e ≤ 2 ^ ceilingPower m e ∧
      (2 : ℚ) ^ ceilingPower m e ≤ 2 ^ 53 * 2 ^ e := by
  have hleast := h.least
  have hlog : m.log2 ≤ 52 := Nat.lt_succ_iff.mp ((Nat.log2_lt hm.ne').mpr h.lt)
  rw [ceilingPower]
  refine ⟨by omega, by omega, ?_, ?_⟩
  · rw [zpow_add₀ two_ne_zero]
    refine mul_le_mul_of_nonneg_right ?_ (zpow_pos two_pos _).le
    exact_mod_cast Nat.succ_le_of_lt Nat.lt_log2_self
  · rw [← zpow_natCast, ← zpow_add₀ two_ne_zero]
    exact zpow_le_zpow_right₀ one_le_two (by omega)

theorem coarsest_spec (tie : Tie) {m : ℕ} {e start : ℤ} {bound : ℚ} (hm : 0 < m)
    (hsize : (m + 1 : ℚ) * 2 ^ e ≤ bound) (hlarge : bound ≤ 2 ^ 53 * 2 ^ e)
    (hlower : bound ≤ 10 ^ start) (hupper : 10 ^ start ≤ 11 * bound) :
    ∃ c p, coarsest tie m e 20 start = ⟨c, p⟩ ∧ Near m e (c * 10 ^ p) ∧ 0 < c ∧ c < 2 ^ 57 ∧
      start - 19 ≤ p ∧ 10 ^ p < bound := by
  have hpos : (0 : ℚ) < 2 ^ e := zpow_pos two_pos _
  -- With `10 ^ 19` points below the bound the grid is too fine to miss the double.
  have hhit : onGrid? tie m e (start - 19) ≠ none := by
    intro hnone
    have hcoarse := onGrid?_eq_none hnone
    rw [zpow_sub₀ (by norm_num)] at hcoarse
    norm_num at hcoarse
    linarith
  have hreach : start - (20 : ℕ) < start - 19 := by omega
  obtain ⟨c, p, hp, hc, hstart, -, hcoarser⟩ := coarsest_eq hreach (by omega) hhit
  have hnear := onGrid?_near hc
  have hten : (0 : ℚ) < 10 ^ p := zpow_pos (by norm_num) _
  have hcpos : 0 < c := by
    have := pos_of_mul_pos_left (hnear.pos hm) hten.le
    exact_mod_cast this
  have hone : (10 : ℚ) ^ p ≤ c * 10 ^ p :=
    le_mul_of_one_le_left hten.le (by exact_mod_cast hcpos)
  have hvalue : c * 10 ^ p < bound := by
    have := hnear.upper
    linarith
  refine ⟨c, p, hp, hnear, hcpos, ?_, hstart, hone.trans_lt hvalue⟩
  -- More digits than that would leave a hit on the next grid.
  rcases hcoarser with rfl | hnone
  · linarith
  · have hcoarse := onGrid?_eq_none hnone
    rw [zpow_add_one₀ (by norm_num)] at hcoarse
    have hlt : (c : ℚ) * 10 ^ p < (2 ^ 57 : ℕ) * 10 ^ p := by
      push_cast
      linarith
    exact_mod_cast lt_of_mul_lt_mul_right hlt hten.le

/-- The shortest decimal reads back to the double, and its digits fit in sixty-four bits. -/
theorem shortest_spec (tie : Tie) {m : ℕ} {e : ℤ} (hm : 0 < m) (h : Canonical m e) (he : e ≤ 971) :
    ∃ c p, shortest tie m e = ⟨c, p⟩ ∧ Near m e (c * 10 ^ p) ∧ 0 < c ∧ c < 2 ^ 57 ∧
      -342 ≤ p ∧ p ≤ 308 := by
  obtain ⟨hleast, hgreatest, hsize, hlarge⟩ := ceilingPower_bounds hm h he
  obtain ⟨hlower, hupper⟩ := startGrid_bounds hleast hgreatest
  obtain ⟨c, p, hp, hnear, hc, hlt, hstart, hbelow⟩ :=
    coarsest_spec tie hm hsize hlarge hlower hupper
  refine ⟨c, p, hp, hnear, hc, hlt, ?_, ?_⟩
  · simp only [startGrid] at hstart
    omega
  · have hpower : (2 : ℚ) ^ ceilingPower m e ≤ 2 ^ (1024 : ℤ) :=
      zpow_le_zpow_right₀ one_le_two hgreatest
    have hlargest := (startGrid_bounds (n := 1024) (by omega) le_rfl).1
    have hexponent := (zpow_lt_zpow_iff_right₀ (by norm_num)).mp
      (hbelow.trans_le (hpower.trans hlargest))
    have : startGrid 1024 = 309 := by decide
    omega

end SystemDynamics.Number
