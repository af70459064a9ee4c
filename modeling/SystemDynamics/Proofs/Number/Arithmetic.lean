import SystemDynamics.Proofs.Number.Double

namespace SystemDynamics.Number

open Float.Model (Format UnpackedFloat)
open Float.Model.UnpackedFloat

theorem neg_apply (s : Sign) (n : ℤ) : (-s).apply n = -s.apply n := by
  cases s with
  | negative => exact (neg_neg n).symm
  | positive => rfl

theorem mul_apply (s s' : Sign) (n n' : ℤ) :
    (s * s').apply (n * n') = s.apply n * s'.apply n' := by
  cases s <;> cases s'
  · exact (neg_mul_neg n n').symm
  · exact (neg_mul n n').symm
  · exact (mul_neg n n').symm
  · rfl

theorem decreaseExponent_value (n : ℕ) (e t : ℤ) (s : Sign) :
    (s.apply (decreaseExponent n e t).1 * 2 ^ (decreaseExponent n e t).2 : ℚ) =
      s.apply n * 2 ^ e := by
  have hscale : ((n <<< (e - t).toNat : ℕ) * 2 ^ (e - (e - t).toNat) : ℚ) = n * 2 ^ e := by
    rw [Nat.shiftLeft_eq, Nat.cast_mul, Nat.cast_pow, Nat.cast_ofNat, mul_assoc, ← zpow_natCast,
      ← zpow_add₀ two_ne_zero, add_sub_cancel]
  cases s with
  | positive => exact_mod_cast hscale
  | negative =>
    simp only [decreaseExponent, Sign.apply, Int.cast_neg, Int.cast_natCast, neg_mul]
    rw [hscale]

theorem decreaseExponent_snd (n : ℕ) (e t : ℤ) : (decreaseExponent n e t).2 = min e t := by
  simp only [decreaseExponent]
  omega

theorem round_represents (s : Sign) {m : ℕ} (hm : 0 < m) (e : ℤ) :
    Represents (toDouble (s.apply m * 2 ^ e)) (UnpackedFloat.round .binary64 s m e) := by
  have hvalue := decreaseExponent_value m e (grain (m * 2 ^ e)) .positive
  simp only [Sign.apply, Int.cast_natCast] at hvalue
  rw [UnpackedFloat.round, targetExponent_eq hm, ← decreaseExponent_value m e (grain (m * 2 ^ e)) s]
  refine roundWithAccuracy_represents s ?_ ?_
  · simp only [decreaseExponent, Nat.shiftLeft_eq]
    positivity
  · rw [hvalue, decreaseExponent_snd]
    exact min_le_right _ _

theorem normalize_represents (n e : ℤ) (s : Sign) :
    Represents (toDouble (n * 2 ^ e)) (UnpackedFloat.normalize .binary64 n e s) := by
  rw [UnpackedFloat.normalize]
  cases hn : compare n 0 with
  | lt =>
    have hneg : n < 0 := compare_lt_iff_lt.mp hn
    have h := round_represents .negative (m := (-n).toNat) (by omega) e
    rwa [Sign.apply, Int.toNat_of_nonneg (by omega), neg_neg] at h
  | eq =>
    have hzero : n = 0 := compare_eq_iff_eq.mp hn
    rw [hzero, Int.cast_zero, zero_mul, toDouble_zero]
    exact .zero s
  | gt =>
    have hpos : 0 < n := compare_gt_iff_gt.mp hn
    have h := round_represents .positive (m := n.toNat) (by omega) e
    rwa [Sign.apply, Int.toNat_of_nonneg (by omega)] at h

section

variable {p q : ℚ} {u v : UnpackedFloat}

theorem neg_represents (hu : Represents q u) : Represents (-q) u.neg := by
  cases hu with
  | zero s =>
    rw [neg_zero]
    exact .zero _
  | @finite s m e hm h =>
    rw [← neg_mul, ← Int.cast_neg, ← neg_apply]
    exact .finite (-s) hm h

theorem add_represents (hu : Represents p u) (hv : Represents q v) :
    Represents (toDouble (p + q)) (UnpackedFloat.add .binary64 u v) := by
  have hp := hu.toDouble_eq
  have hq := hv.toDouble_eq
  cases hu with
  | zero s =>
    rw [zero_add, hq]
    cases hv with
    | zero s' =>
      rw [UnpackedFloat.add]
      split <;> exact .zero _
    | finite s' hm' h' => exact .finite s' hm' h'
  | @finite s m e hm h =>
    cases hv with
    | zero s' =>
      rw [add_zero, hp]
      exact .finite s hm h
    | @finite s' m' e' hm' h' =>
      have hleft := decreaseExponent_value m e (min e e') s
      have hright := decreaseExponent_value m' e' (min e e') s'
      rw [decreaseExponent_snd, min_eq_right (min_le_left e e')] at hleft
      rw [decreaseExponent_snd, min_eq_right (min_le_right e e')] at hright
      rw [← hleft, ← hright, ← add_mul, ← Int.cast_add]
      exact normalize_represents _ _ _

theorem Canonical.mul_le_grain {m m' : ℕ} {e e' : ℤ} (h : Canonical m e) (h' : Canonical m' e')
    (hm : 0 < m) (hm' : 0 < m') : e + e' ≤ grain ((m * m' : ℕ) * 2 ^ (e + e')) := by
  rcases le_or_gt (2 ^ 52) (m * m') with hlarge | hsmall
  · refine le_grain ?_
    have hpos : (0 : ℚ) < 2 ^ (e + e') := zpow_pos two_pos _
    rw [abs_of_nonneg (by positivity), add_comm, zpow_add₀ two_ne_zero]
    exact mul_le_mul_of_nonneg_right (by exact_mod_cast hlarge) hpos.le
  · have he : e = -1074 := h.full.resolve_left fun hfull ↦ by nlinarith
    have he' : e' = -1074 := h'.full.resolve_left fun hfull ↦ by nlinarith
    rw [he, he']
    exact le_trans (by norm_num) (le_max_right _ _)

theorem mul_represents (hu : Represents p u) (hv : Represents q v) :
    Represents (toDouble (p * q)) (UnpackedFloat.mul .binary64 u v) := by
  cases hu with
  | zero s =>
    rw [zero_mul, toDouble_zero]
    cases hv <;> exact .zero _
  | @finite s m e hm h =>
    cases hv with
    | zero s' =>
      rw [mul_zero, toDouble_zero]
      exact .zero _
    | @finite s' m' e' hm' h' =>
      have hvalue : (s.apply m * 2 ^ e * (s'.apply m' * 2 ^ e') : ℚ) =
          (s * s').apply (m * m' : ℕ) * 2 ^ (e + e') := by
        rw [zpow_add₀ two_ne_zero, Nat.cast_mul, mul_apply, Int.cast_mul]
        ring
      rw [hvalue]
      exact roundWithAccuracy_represents _ (Nat.mul_pos hm hm') (h.mul_le_grain h' hm hm')

end

/-- A double with an exact value; infinities have none. -/
def HasValue (x : Float) (q : ℚ) : Prop :=
  Represents q x.toModel.unpack

variable {x y : Float} {p q : ℚ}

theorem HasValue.isFinite (h : HasValue x q) : x.isFinite := by
  change x.toModel.unpack.isFinite
  rw [HasValue] at h
  generalize x.toModel.unpack = u at h ⊢
  cases h <;> rfl

theorem HasValue.isInf (h : HasValue x q) : x.isInf = false := by
  change x.toModel.unpack.isInf = false
  rw [HasValue] at h
  generalize x.toModel.unpack = u at h ⊢
  cases h <;> rfl

theorem unpack_of_isFinite (h : x.isFinite) : (∃ s, x.toModel.unpack = .zero s) ∨
    ∃ s m e, ∃ hm : 0 < m, x.toModel.unpack = .finite s m e hm := by
  change x.toModel.unpack.isFinite at h
  cases hu : x.toModel.unpack with
  | infinity s => simp [hu, UnpackedFloat.isFinite] at h
  | notANumber => simp [hu, UnpackedFloat.isFinite] at h
  | zero s => exact .inl ⟨s, rfl⟩
  | finite s m e hm => exact .inr ⟨s, m, e, hm, rfl⟩

theorem hasValue_of_zero {s : Sign} (h : x.toModel.unpack = .zero s) : HasValue x 0 := by
  rw [HasValue, h]
  exact .zero s

theorem hasValue_of_finite {s : Sign} {m : ℕ} {e : ℤ} {hm : 0 < m}
    (h : x.toModel.unpack = .finite s m e hm) : HasValue x (s.apply m * 2 ^ e) := by
  rw [HasValue, h]
  exact .finite s hm (canonical_of_unpack h).1

theorem exists_hasValue (h : x.isFinite) : ∃ q, HasValue x q := by
  rcases unpack_of_isFinite h with ⟨s, hu⟩ | ⟨s, m, e, hm, hu⟩
  · exact ⟨0, hasValue_of_zero hu⟩
  · exact ⟨s.apply m * 2 ^ e, hasValue_of_finite hu⟩

theorem eq_of_unpack (hx : x.isFinite) (h : x.toModel.unpack = y.toModel.unpack) : x = y := by
  have hy : y.isFinite := by
    change y.toModel.unpack.isFinite
    rw [← h]
    exact hx
  have hbits : x.toModel.toBits.toBitVec = y.toModel.toBits.toBitVec := by
    rw [← pack_unpack hx, ← pack_unpack hy]
    exact congrArg _ h
  obtain ⟨⟨⟨bits⟩, hvalid⟩⟩ := x
  obtain ⟨⟨⟨bits'⟩, hvalid'⟩⟩ := y
  obtain rfl : bits = bits' := hbits
  rfl

theorem HasValue.unique (hx : HasValue x q) (hy : HasValue y q) (hq : q ≠ 0) : x = y :=
  eq_of_unpack hx.isFinite (Represents.unique hx hy hq)

/-- The largest double is one grain below `2 ^ 1024`. -/
theorem Canonical.abs_le {m : ℕ} {e : ℤ} (h : Canonical m e) (he : e ≤ 971) (s : Sign) :
    |(s.apply m * 2 ^ e : ℚ)| ≤ 2 ^ (1024 : ℤ) - 2 ^ (971 : ℤ) := by
  have hpos : (0 : ℚ) < 2 ^ e := zpow_pos two_pos _
  have hm : (m : ℚ) ≤ 2 ^ 53 - 1 := by
    have : (m : ℚ) + 1 ≤ 2 ^ 53 := by exact_mod_cast h.lt
    linarith
  rw [abs_mul, abs_sign_apply, abs_of_pos hpos]
  calc (m : ℚ) * 2 ^ e ≤ (2 ^ 53 - 1) * 2 ^ (971 : ℤ) :=
        mul_le_mul hm (zpow_le_zpow_right₀ one_le_two he) hpos.le (by norm_num)
    _ = 2 ^ (53 + 971 : ℤ) - 2 ^ (971 : ℤ) := by
        rw [zpow_add₀ two_ne_zero]
        ring

theorem HasValue.abs_le (h : HasValue x q) : |q| ≤ 2 ^ (1024 : ℤ) - 2 ^ (971 : ℤ) := by
  rw [HasValue] at h
  generalize hu : x.toModel.unpack = u at h
  cases h with
  | zero s =>
    rw [abs_zero, sub_nonneg]
    exact zpow_le_zpow_right₀ one_le_two (by omega)
  | @finite s m e hm h => exact h.abs_le (canonical_of_unpack hu).2 s

/-- What is below `2 ^ 1024` survives packing. -/
theorem hasValue_pack {u : UnpackedFloat} (h : Represents q u) (hq : |q| < 2 ^ (1024 : ℤ)) :
    HasValue (.ofModel (.pack u)) q := by
  cases h with
  | zero s =>
    change Represents 0 (unpack .binary64 (packedZero .binary64 s))
    rw [unpack_packedZero]
    exact .zero s
  | @finite s m e hm h =>
    have hpos : (0 : ℚ) < 2 ^ e := zpow_pos two_pos _
    have he : e ≤ 971 := by
      rcases h.full with hfull | rfl
      · rw [abs_mul, abs_sign_apply, abs_of_pos hpos] at hq
        have hle : (2 : ℚ) ^ (52 + e) ≤ m * 2 ^ e := by
          rw [zpow_add₀ two_ne_zero]
          exact mul_le_mul_of_nonneg_right (by exact_mod_cast hfull) hpos.le
        have := (zpow_lt_zpow_iff_right₀ (one_lt_two (α := ℚ))).mp (hle.trans_lt hq)
        omega
      · omega
    change Represents _ (unpack .binary64 (pack .binary64 (.finite s m e hm)))
    rw [unpack_pack h he]
    exact .finite s hm h

theorem hasValue_neg (h : HasValue x q) : HasValue (-x) (-q) := by
  refine hasValue_pack (neg_represents h) ?_
  rw [abs_neg]
  exact h.abs_le.trans_lt (sub_lt_self _ (zpow_pos two_pos _))

theorem hasValue_add (hx : HasValue x p) (hy : HasValue y q)
    (h : |toDouble (p + q)| < 2 ^ (1024 : ℤ)) : HasValue (x + y) (toDouble (p + q)) :=
  hasValue_pack (add_represents hx hy) h

theorem hasValue_mul (hx : HasValue x p) (hy : HasValue y q)
    (h : |toDouble (p * q)| < 2 ^ (1024 : ℤ)) : HasValue (x * y) (toDouble (p * q)) :=
  hasValue_pack (mul_represents hx hy) h

theorem abs_lt_of_pack {u : UnpackedFloat} (h : Represents q u)
    (hfinite : (Float.ofModel (.pack u)).isInf = false) : |q| < 2 ^ (1024 : ℤ) := by
  cases h with
  | zero s =>
    rw [abs_zero]
    exact zpow_pos two_pos _
  | @finite s m e hm h =>
    have hpos : (0 : ℚ) < 2 ^ e := zpow_pos two_pos _
    have he : e ≤ 971 := by
      by_contra hlarge
      have hinfinite : pack .binary64 (.finite s m e hm) = packedInfinity .binary64 s := by
        rw [pack]
        exact if_pos (by simp only [Format.exponentBias]; omega)
      change (unpack .binary64 (pack .binary64 (.finite s m e hm))).isInf = false at hfinite
      rw [hinfinite] at hfinite
      cases s <;> exact absurd hfinite (by decide)
    exact (h.abs_le he s).trans_lt (sub_lt_self _ (zpow_pos two_pos _))

theorem hasValue_mul_of_not_isInf (hx : HasValue x p) (hy : HasValue y q)
    (h : (x * y).isInf = false) : HasValue (x * y) (toDouble (p * q)) :=
  hasValue_mul hx hy (abs_lt_of_pack (mul_represents hx hy) h)

theorem eq_of_not_isFinite {u : UnpackedFloat} (h : u.isFinite = false) :
    u = .notANumber ∨ ∃ s, u = .infinity s := by
  cases u with
  | notANumber => exact .inl rfl
  | infinity s => exact .inr ⟨s, rfl⟩
  | zero s => simp [UnpackedFloat.isFinite] at h
  | finite s m e hm => simp [UnpackedFloat.isFinite] at h

theorem isFinite_pack_of_not {u : UnpackedFloat} (h : u.isFinite = false) :
    (unpack .binary64 (pack .binary64 u)).isFinite = false := by
  rcases eq_of_not_isFinite h with rfl | ⟨s, rfl⟩
  · rfl
  · cases s <;> rfl

theorem isFinite_add_unpacked_of_not {u v : UnpackedFloat} (h : u.isFinite = false) :
    (UnpackedFloat.add .binary64 u v).isFinite = false := by
  rcases eq_of_not_isFinite h with rfl | ⟨s, rfl⟩
  · cases v <;> rfl
  · cases v with
    | infinity s' =>
      rw [UnpackedFloat.add]
      split <;> rfl
    | _ => rfl

theorem isFinite_add_of_not (h : x.isFinite = false) : (x + y).isFinite = false :=
  isFinite_pack_of_not (isFinite_add_unpacked_of_not h)

theorem add_unpacked_comm (u v : UnpackedFloat) :
    UnpackedFloat.add .binary64 u v = UnpackedFloat.add .binary64 v u := by
  cases u with
  | finite s m e hm =>
    cases v with
    | finite s' m' e' hm' => simp only [UnpackedFloat.add, min_comm e e', add_comm]
    | _ => rfl
  | zero s =>
    cases v with
    | zero s' => cases s <;> cases s' <;> rfl
    | _ => rfl
  | infinity s =>
    cases v with
    | infinity s' => cases s <;> cases s' <;> rfl
    | _ => rfl
  | notANumber => cases v <;> rfl

theorem isFinite_add_right_of_not (h : y.isFinite = false) : (x + y).isFinite = false := by
  have hcomm : x + y = y + x := congrArg (fun u ↦ Float.ofModel (.pack u)) (add_unpacked_comm _ _)
  rw [hcomm]
  exact isFinite_add_of_not h

theorem isFinite_mul_of_not (h : x.isFinite = false) : (x * y).isFinite = false := by
  refine isFinite_pack_of_not ?_
  generalize y.toModel.unpack = v
  rcases eq_of_not_isFinite h with hx | ⟨s, hx⟩
  · rw [hx]
    cases v <;> rfl
  · rw [hx]
    cases v <;> rfl

theorem Canonical.lt_of_exponent_lt {m m' : ℕ} {e e' : ℤ} (h : Canonical m e)
    (h' : Canonical m' e') (hlt : e < e') : (m * 2 ^ e : ℚ) < m' * 2 ^ e' := by
  have hfull : (2 : ℚ) ^ 52 ≤ m' := by
    exact_mod_cast h'.full.resolve_right (by have := h.least; omega)
  have hm : (m : ℚ) < 2 ^ 53 := by exact_mod_cast h.lt
  have hpos : (0 : ℚ) < 2 ^ e := zpow_pos two_pos _
  calc (m : ℚ) * 2 ^ e < 2 ^ 53 * 2 ^ e := mul_lt_mul_of_pos_right hm hpos
    _ = 2 ^ 52 * 2 ^ (e + 1) := by
      rw [zpow_add_one₀ two_ne_zero]
      ring
    _ ≤ m' * 2 ^ e' := mul_le_mul hfull (zpow_le_zpow_right₀ one_le_two hlt)
      (zpow_pos two_pos _).le (by positivity)

theorem Canonical.compare_eq {m m' : ℕ} {e e' : ℤ} (h : Canonical m e) (h' : Canonical m' e') :
    (compare e e').then (compare m m') = compare (m * 2 ^ e : ℚ) (m' * 2 ^ e') := by
  rcases lt_trichotomy e e' with hlt | rfl | hgt
  · rw [compare_lt_iff_lt.mpr hlt, compare_lt_iff_lt.mpr (h.lt_of_exponent_lt h' hlt)]
    rfl
  · have hpos : (0 : ℚ) < 2 ^ e := zpow_pos two_pos _
    rw [compare_eq_iff_eq.mpr rfl, Ordering.then]
    rcases lt_trichotomy m m' with hlt | rfl | hgt
    · rw [compare_lt_iff_lt.mpr hlt]
      exact (compare_lt_iff_lt.mpr (mul_lt_mul_of_pos_right (by exact_mod_cast hlt) hpos)).symm
    · rw [compare_eq_iff_eq.mpr rfl, compare_eq_iff_eq.mpr rfl]
    · rw [compare_gt_iff_gt.mpr hgt]
      exact (compare_gt_iff_gt.mpr (mul_lt_mul_of_pos_right (by exact_mod_cast hgt) hpos)).symm
  · rw [compare_gt_iff_gt.mpr hgt, compare_gt_iff_gt.mpr (h'.lt_of_exponent_lt h hgt)]
    rfl

theorem swap_compare_eq_compare_neg (p q : ℚ) : (compare p q).swap = compare (-p) (-q) := by
  rcases lt_trichotomy p q with hlt | rfl | hgt
  · rw [compare_lt_iff_lt.mpr hlt, compare_gt_iff_gt.mpr (neg_lt_neg hlt)]
    rfl
  · rw [compare_eq_iff_eq.mpr rfl, compare_eq_iff_eq.mpr rfl]
    rfl
  · rw [compare_gt_iff_gt.mpr hgt, compare_lt_iff_lt.mpr (neg_lt_neg hgt)]
    rfl

theorem Represents.compare_eq {u v : UnpackedFloat} (hu : Represents p u) (hv : Represents q v) :
    u.compare v = some (compare p q) := by
  have positive : ∀ {m : ℕ} {e : ℤ}, 0 < m → (0 : ℚ) < m * 2 ^ e := fun hm ↦
    mul_pos (by exact_mod_cast hm) (zpow_pos two_pos _)
  cases hu with
  | zero s =>
    cases hv with
    | zero s' => rfl
    | @finite s' m' e' hm' h' =>
      have hpos : (0 : ℚ) < m' * 2 ^ e' := positive hm'
      cases s' <;> simp only [UnpackedFloat.compare, Sign.apply, Int.cast_neg, Int.cast_natCast,
        neg_mul]
      · rw [compare_gt_iff_gt.mpr (neg_neg_of_pos hpos)]
      · rw [compare_lt_iff_lt.mpr hpos]
  | @finite s m e hm h =>
    have hpos : (0 : ℚ) < m * 2 ^ e := positive hm
    cases hv with
    | zero s' =>
      cases s <;> simp only [UnpackedFloat.compare, Sign.apply, Int.cast_neg, Int.cast_natCast,
        neg_mul]
      · rw [compare_lt_iff_lt.mpr (neg_neg_of_pos hpos)]
      · rw [compare_gt_iff_gt.mpr hpos]
    | @finite s' m' e' hm' h' =>
      have hpos' : (0 : ℚ) < m' * 2 ^ e' := positive hm'
      cases s <;> cases s' <;> simp only [UnpackedFloat.compare, Sign.apply, Int.cast_neg,
        Int.cast_natCast, neg_mul, h.compare_eq h']
      · rw [swap_compare_eq_compare_neg]
      · rw [compare_lt_iff_lt.mpr ((neg_neg_of_pos hpos).trans hpos')]
      · rw [compare_gt_iff_gt.mpr ((neg_neg_of_pos hpos').trans hpos)]

theorem lt_iff (hx : HasValue x p) (hy : HasValue y q) : x < y ↔ p < q := by
  have h : x < y ↔ x.toModel.unpack.compare y.toModel.unpack = some .lt := by
    change decide (x.toModel < y.toModel) = true ↔ _
    rw [decide_eq_true_iff]
    change (UnpackedFloat.lt _ _) = true ↔ _
    rw [UnpackedFloat.lt, beq_iff_eq]
  rw [h, Represents.compare_eq hx hy, Option.some_inj, compare_lt_iff_lt]

theorem le_iff (hx : HasValue x p) (hy : HasValue y q) : x ≤ y ↔ p ≤ q := by
  have h : x ≤ y ↔ (x.toModel.unpack.compare y.toModel.unpack).any (·.isLE) := by
    change decide (x.toModel ≤ y.toModel) = true ↔ _
    rw [decide_eq_true_iff]
    rfl
  rw [h, Represents.compare_eq hx hy, Option.any_some, Ordering.isLE_iff_ne_gt,
    compare_gt_iff_gt, not_lt]

theorem beq_iff (hx : HasValue x p) (hy : HasValue y q) : (x == y) = true ↔ p = q := by
  change (x.toModel.unpack.compare y.toModel.unpack == some .eq) = true ↔ _
  rw [beq_iff_eq, Represents.compare_eq hx hy, Option.some_inj, compare_eq_iff_eq]

theorem hasValue_unitBits : HasValue (Float.ofBits 0x3FF0000000000000) 1 := by
  have h : Represents ((2 ^ 52 : ℕ) * 2 ^ (-52 : ℤ))
      (.finite .positive (2 ^ 52) (-52) (Nat.two_pow_pos 52)) :=
    .finite .positive _ ⟨by norm_num, by norm_num, .inl le_rfl⟩
  have hvalue : (((2 ^ 52 : ℕ) : ℚ) * 2 ^ (-52 : ℤ)) = 1 := by norm_num
  rw [hvalue] at h
  exact h

theorem ofUInt64_represents {n : ℕ} (hn : n < 2 ^ 64) :
    Represents (toDouble n) (UnpackedFloat.ofUInt64 .binary64 n.toUInt64) := by
  have h := normalize_represents n 0 .positive
  have hcast : n.toUInt64.toNat = n := Nat.mod_eq_of_lt hn
  rw [zpow_zero, mul_one, Int.cast_natCast] at h
  rw [UnpackedFloat.ofUInt64, hcast]
  exact h

theorem ofScientific_represents {n : ℕ} (hn : 0 < n) {k : ℕ} (hk : k ≤ 2048) :
    Represents (toDouble (n * 10 ^ k : ℕ)) (UnpackedFloat.ofScientific .binary64 n k) := by
  have hmantissa : n <<< Format.binary64.mantissaBits * 10 ^ (k : ℤ).toNat = n * 10 ^ k * 2 ^ 53 := by
    rw [Nat.shiftLeft_eq, Int.toNat_natCast]
    exact Nat.mul_right_comm n _ _
  have hpos : 0 < n * 10 ^ k := Nat.mul_pos hn (Nat.pow_pos (by decide))
  have hsmall : ¬ (k : ℤ) < -(2 ^ 11 + n.log2) := by omega
  have hlarge : ¬ (k : ℤ) > 2 ^ 11 := by omega
  rw [UnpackedFloat.ofScientific, dif_neg hn.ne', if_neg hlarge, if_neg hsmall, if_pos (by omega),
    UnpackedFloat.mul, hmantissa]
  generalize n * 10 ^ k = n at hpos
  have hexact : ((n * 2 ^ 53 : ℕ) * 2 ^ (-53 : ℤ) : ℚ) = n := by
    rw [Nat.cast_mul, mul_assoc]
    norm_num
  have hgrain : -53 ≤ grain ((n * 2 ^ 53 : ℕ) * 2 ^ (-53 : ℤ)) := by
    refine le_grain ?_
    rw [hexact, abs_of_nonneg (Nat.cast_nonneg n)]
    have hone : (1 : ℚ) ≤ n := by exact_mod_cast hpos
    exact le_trans (by norm_num) hone
  have h := roundWithAccuracy_represents .positive (by omega : 0 < n * 2 ^ 53) hgrain
  rw [Sign.apply, Int.cast_natCast, hexact] at h
  exact h

theorem hasValue_ofNat {n : ℕ} (hn : n ≤ 2 ^ 64) : HasValue (Float.ofNat n) (toDouble n) := by
  have hle : |(n : ℚ)| ≤ 2 ^ (64 : ℤ) := by
    rw [abs_of_nonneg (Nat.cast_nonneg n)]
    exact_mod_cast hn
  have hlarge : |toDouble n| < 2 ^ (1024 : ℤ) :=
    (abs_toDouble_le (by omega) hle).trans_lt (zpow_lt_zpow_right₀ one_lt_two (by omega))
  change HasValue (Float.ofScientific n false 0) _
  rw [Float.ofScientific]
  by_cases hfast : n < 2 ^ 53
  · rw [dif_pos ⟨hfast, by omega⟩]
    have hn' : HasValue n.toUInt64.toFloat (toDouble n) :=
      hasValue_pack (ofUInt64_represents (by omega)) hlarge
    have hmul := hasValue_mul hn' hasValue_unitBits
    rw [mul_one, hn'.toDouble_eq] at hmul
    exact hmul hlarge
  · rw [dif_neg fun h ↦ hfast h.1]
    have h := ofScientific_represents (k := 0) (by omega : 0 < n) (by decide)
    rw [pow_zero, mul_one] at h
    exact hasValue_pack h hlarge

end SystemDynamics.Number
