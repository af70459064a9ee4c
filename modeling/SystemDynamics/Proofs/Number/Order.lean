import SystemDynamics.Proofs.Number.Rounding

namespace SystemDynamics.Number

variable {p q : ℚ}

theorem grain_mono (hp : 0 < p) (h : p ≤ q) : grain p ≤ grain q := by
  have hlog := Int.log_mono_right (b := 2) hp h
  rw [grain, grain, abs_of_pos hp, abs_of_pos (hp.trans_le h)]
  omega

theorem toDouble_nonneg (hq : 0 ≤ q) : 0 ≤ toDouble q := by
  have hgrains := evenRound_mono (div_nonneg hq (zpow_pos two_pos (grain q)).le)
  have hzero := evenRound_intCast 0
  rw [Int.cast_zero] at hzero
  rw [hzero] at hgrains
  exact mul_nonneg (by exact_mod_cast hgrains) (zpow_pos two_pos _).le

theorem toDouble_mono_of_pos (hp : 0 < p) (h : p ≤ q) : toDouble p ≤ toDouble q := by
  have hq := hp.trans_le h
  rcases (grain_mono hp h).eq_or_lt with hsame | hless
  · rw [toDouble, toDouble, hsame]
    have hpos : (0 : ℚ) < 2 ^ grain q := zpow_pos two_pos _
    have hgrains := evenRound_mono (div_le_div_of_nonneg_right h hpos.le)
    exact mul_le_mul_of_nonneg_right (by exact_mod_cast hgrains) hpos.le
  · -- A power of two lies between the doubles of different grains.
    have hleast : -1074 ≤ grain p := le_max_right _ _
    have hfull : (2 ^ 52 : ℚ) ≤ evenRound (q / 2 ^ grain q) := by
      exact_mod_cast (evenRound_grains hq).2.resolve_right (by omega)
    calc toDouble p ≤ 2 ^ 53 * 2 ^ grain p :=
          mul_le_mul_of_nonneg_right (by exact_mod_cast (evenRound_grains hp).1)
            (zpow_pos two_pos _).le
      _ = 2 ^ 52 * 2 ^ (grain p + 1) := by
          rw [zpow_add_one₀ two_ne_zero]
          ring
      _ ≤ toDouble q :=
          mul_le_mul hfull (zpow_le_zpow_right₀ one_le_two hless) (zpow_pos two_pos _).le
            (le_trans (by positivity) hfull)

theorem toDouble_mono : Monotone toDouble := by
  intro p q h
  rcases lt_or_ge 0 p with hp | hp
  · exact toDouble_mono_of_pos hp h
  · rcases lt_or_ge q 0 with hq | hq
    · have hneg := toDouble_mono_of_pos (neg_pos.mpr hq) (neg_le_neg h)
      rw [toDouble_neg, toDouble_neg] at hneg
      exact neg_le_neg_iff.mp hneg
    · have hlow := toDouble_nonneg (neg_nonneg.mpr hp)
      rw [toDouble_neg] at hlow
      exact (neg_nonneg.mp hlow).trans (toDouble_nonneg hq)

theorem abs_toDouble_le_toDouble (h : |p| ≤ q) : |toDouble p| ≤ toDouble q := by
  obtain ⟨hlow, hhigh⟩ := abs_le.mp h
  have hlower := toDouble_mono hlow
  rw [toDouble_neg] at hlower
  exact abs_le.mpr ⟨hlower, toDouble_mono hhigh⟩

theorem toDouble_zpow {e : ℤ} (he : -1074 ≤ e) : toDouble (2 ^ e) = 2 ^ e := by
  have h := toDouble_of_lt (n := 1) (by norm_num) he
  rwa [Nat.cast_one, one_mul] at h

theorem toDouble_toDouble_of_nonneg (hq : 0 ≤ q) : toDouble (toDouble q) = toDouble q := by
  rcases hq.eq_or_lt with rfl | hpos
  · rw [toDouble_zero, toDouble_zero]
  have hleast : -1074 ≤ grain q := le_max_right _ _
  have hle := (evenRound_grains hpos).1
  have hnonneg : 0 ≤ evenRound (q / 2 ^ grain q) := by
    have h := nonneg_of_mul_nonneg_left (toDouble_nonneg hq) (zpow_pos two_pos _)
    exact_mod_cast h
  obtain ⟨n, hn⟩ := Int.eq_ofNat_of_zero_le hnonneg
  have hvalue : toDouble q = n * 2 ^ grain q := by rw [toDouble, hn, Int.cast_natCast]
  rw [hvalue]
  rcases (by omega : n ≤ 2 ^ 53).eq_or_lt with rfl | hlt
  · have hcarry : ((2 ^ 53 : ℕ) * 2 ^ grain q : ℚ) = 2 ^ (53 + grain q) := by
      rw [zpow_add₀ two_ne_zero]
      norm_num
    rw [hcarry]
    exact toDouble_zpow (by omega)
  · exact toDouble_of_lt hlt hleast

theorem toDouble_toDouble (q : ℚ) : toDouble (toDouble q) = toDouble q := by
  rcases le_total 0 q with hq | hq
  · exact toDouble_toDouble_of_nonneg hq
  · have h := toDouble_toDouble_of_nonneg (neg_nonneg.mpr hq)
    rwa [toDouble_neg, toDouble_neg, neg_inj] at h

theorem abs_toDouble_sub_le_of_le (hp : 0 ≤ p) (h : p ≤ q) :
    |toDouble p - p| ≤ 2 ^ grain q / 2 := by
  rcases hp.eq_or_lt with rfl | hpos
  · rw [toDouble_zero, sub_zero, abs_zero]
    exact div_nonneg (zpow_pos two_pos _).le zero_le_two
  · exact (abs_toDouble_sub_le p).trans (div_le_div_of_nonneg_right
      (zpow_le_zpow_right₀ one_le_two (grain_mono hpos h)) zero_le_two)

theorem add_grain_le (hp : toDouble p = p) (hpos : 0 < p) :
    p + 2 ^ grain p ≤ 2 ^ (grain p + 53) := by
  have hlt := abs_lt_grain p
  obtain ⟨n, hn⟩ : ∃ n : ℤ, (n : ℚ) * 2 ^ grain p = p := ⟨_, hp⟩
  rw [abs_of_pos hpos] at hlt
  generalize grain p = t at *
  have hgrain : (0 : ℚ) < 2 ^ t := zpow_pos two_pos _
  rw [← hn, add_comm, zpow_add₀ two_ne_zero] at hlt
  rw [← hn, add_comm t, zpow_add₀ two_ne_zero, ← add_one_mul]
  have hless : (n : ℚ) < 2 ^ (53 : ℤ) := lt_of_mul_lt_mul_right hlt hgrain.le
  refine mul_le_mul_of_nonneg_right ?_ hgrain.le
  exact_mod_cast Int.add_one_le_iff.mpr (by exact_mod_cast hless)

/-- Less than half of the distance to the next double is lost when it is added. -/
theorem toDouble_add_of_small (hp : toDouble p = p) (hpos : 0 < p) (hq : 0 ≤ q)
    (hsmall : 2 * q < 2 ^ grain p) : toDouble (p + q) = p := by
  have hgrain : (0 : ℚ) < 2 ^ grain p := zpow_pos two_pos _
  have hroom := add_grain_le hp hpos
  have hfull := grain_le_abs hpos.ne'
  rw [abs_of_pos hpos] at hfull
  have habs : |p + q| = p + q := abs_of_pos (by linarith)
  have hsame : grain (p + q) = grain p := by
    refine grain_eq (by linarith) ?_ (le_max_right _ _) ?_
    · rw [habs]
      linarith
    · rw [habs]
      exact hfull.imp_left fun h ↦ h.trans (le_add_of_nonneg_right hq)
  obtain ⟨n, hn⟩ : ∃ n : ℤ, (n : ℚ) * 2 ^ grain p = p := ⟨_, hp⟩
  refine (toDouble_eq_of_near hsame (.inl ?_)).trans hn
  rw [hn, add_sub_cancel_left, abs_of_nonneg hq]
  linarith

/-- A whole multiple of the smallest double, as all doubles are. -/
def Granular (q : ℚ) : Prop :=
  ∃ n : ℤ, q = n * 2 ^ (-1074 : ℤ)

theorem granular_toDouble (q : ℚ) : Granular (toDouble q) := by
  obtain ⟨k, hk⟩ := Int.le.dest (le_max_right (Int.log 2 |q| - 52) (-1074))
  refine ⟨evenRound (q / 2 ^ grain q) * 2 ^ k, ?_⟩
  have hgrain : (2 : ℚ) ^ grain q = 2 ^ k * 2 ^ (-1074 : ℤ) := by
    rw [grain, ← hk, add_comm, zpow_add₀ two_ne_zero, zpow_natCast]
  rw [toDouble, hgrain, Int.cast_mul, Int.cast_pow, Int.cast_ofNat, mul_assoc]

theorem Granular.sub (hp : Granular p) (hq : Granular q) : Granular (p - q) := by
  obtain ⟨m, rfl⟩ := hp
  obtain ⟨n, rfl⟩ := hq
  exact ⟨m - n, by rw [Int.cast_sub, sub_mul]⟩

theorem Granular.toDouble_eq (h : Granular q) (hq : 0 ≤ q) (hlt : q < 2 ^ (-1021 : ℤ)) :
    toDouble q = q := by
  obtain ⟨n, rfl⟩ := h
  have hpos : (0 : ℚ) < 2 ^ (-1074 : ℤ) := zpow_pos two_pos _
  have hn : 0 ≤ n := by exact_mod_cast nonneg_of_mul_nonneg_left hq hpos
  obtain ⟨k, rfl⟩ := Int.eq_ofNat_of_zero_le hn
  have hk : k < 2 ^ 53 := by
    have hsplit : (2 : ℚ) ^ (-1021 : ℤ) = 2 ^ 53 * 2 ^ (-1074 : ℤ) := by
      rw [← zpow_natCast, ← zpow_add₀ two_ne_zero]
      norm_num
    rw [hsplit] at hlt
    exact_mod_cast lt_of_mul_lt_mul_right hlt hpos.le
  exact toDouble_of_lt hk le_rfl

theorem Granular.toDouble_pos (h : Granular q) (hq : 0 < q) : 0 < toDouble q := by
  obtain ⟨n, rfl⟩ := h
  have hpos : (0 : ℚ) < 2 ^ (-1074 : ℤ) := zpow_pos two_pos _
  have hn : (1 : ℚ) ≤ n := by exact_mod_cast pos_of_mul_pos_left hq hpos.le
  have hle := toDouble_mono (le_mul_of_one_le_left hpos.le hn)
  rw [toDouble_zpow le_rfl] at hle
  exact hpos.trans_le hle

/-- The part of a normal number that is left by its roundoff is rounded to less than the number. -/
theorem toDouble_lt_of_part (hp : 2 ^ (-1022 : ℤ) < p) (hq : q ≤ p * (1 - 2 ^ (-53 : ℤ))) :
    toDouble q < p := by
  have hpos : 0 < p := (zpow_pos two_pos _).trans hp
  refine (toDouble_mono hq).trans_lt ?_
  set part := p * (1 - 2 ^ (-53 : ℤ)) with hpart
  have hleft : p - part = p * 2 ^ (-53 : ℤ) := by rw [hpart]; ring
  have hpartpos : 0 < part := mul_pos hpos (by norm_num)
  -- Rounded up, it would be off by no more than half a grain, and too small for that grain.
  by_contra habove
  have hge := not_lt.mp habove
  have herror := (le_abs_self _).trans (abs_toDouble_sub_le part)
  have hhalf : (2 : ℚ) ^ grain part / 2 = 2 ^ (grain part + 52) * 2 ^ (-53 : ℤ) := by
    rw [← zpow_add₀ two_ne_zero, add_assoc, zpow_add₀ two_ne_zero, div_eq_mul_inv]
    norm_num
  have hle : p ≤ 2 ^ (grain part + 52) := by
    refine le_of_mul_le_mul_right ?_ (zpow_pos two_pos (-53))
    rw [← hleft, ← hhalf]
    exact (sub_le_sub_right hge part).trans herror
  have hless : part < 2 ^ (grain part + 52) := by
    have := mul_pos hpos (zpow_pos two_pos (-53))
    linarith
  have hleast := (grain_le_abs hpartpos.ne').resolve_left (by
    rw [abs_of_pos hpartpos]
    exact not_le.mpr hless)
  rw [hleast] at hle
  exact absurd (hp.trans_le hle) (by norm_num)

theorem toDouble_le_of_part (hp : Granular p) (hnonneg : 0 ≤ p)
    (hq : q ≤ toDouble p * (1 - 2 ^ (-53 : ℤ))) : toDouble q ≤ p := by
  rcases lt_or_ge p (2 ^ (-1021 : ℤ)) with hsmall | hlarge
  · have hexact := hp.toDouble_eq hnonneg hsmall
    rw [hexact] at hq
    have hle : q ≤ p := hq.trans (mul_le_of_le_one_right hnonneg (by norm_num))
    exact (toDouble_mono hle).trans_eq hexact
  · have hnormal : (2 : ℚ) ^ (-1022 : ℤ) < toDouble p := by
      refine lt_of_lt_of_le ?_ (toDouble_mono hlarge)
      rw [toDouble_zpow (by norm_num)]
      exact zpow_lt_zpow_right₀ one_lt_two (by norm_num)
    by_contra habove
    have hback := toDouble_mono (not_le.mp habove).le
    rw [toDouble_toDouble] at hback
    exact absurd (toDouble_lt_of_part hnormal hq) (not_lt.mpr hback)

end SystemDynamics.Number
