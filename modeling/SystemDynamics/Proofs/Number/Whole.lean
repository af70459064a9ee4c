import SystemDynamics.Number.Whole
import SystemDynamics.Proofs.Number.Order
import SystemDynamics.Proofs.Number.Quotient

namespace SystemDynamics.Number

open Float.Model (Format UnpackedFloat)
open Float.Model.UnpackedFloat

theorem positive_of_nonneg {s : Sign} {m : ℕ} {e : ℤ} (hm : 0 < m)
    (h : 0 ≤ (s.apply m * 2 ^ e : ℚ)) : s = .positive := by
  cases s with
  | positive => rfl
  | negative =>
    have hpos : (0 : ℚ) < m * 2 ^ e := mul_pos (by exact_mod_cast hm) (zpow_pos two_pos _)
    simp only [Sign.apply, Int.cast_neg, Int.cast_natCast] at h
    linarith

section

variable {p q : ℚ} {u v : UnpackedFloat}

theorem sub_unpacked_eq_add_neg (u v : UnpackedFloat) :
    UnpackedFloat.sub .binary64 u v = UnpackedFloat.add .binary64 u v.neg := by
  cases u with
  | finite s m e hm =>
    cases v with
    | finite s' m' e' hm' =>
      simp only [UnpackedFloat.sub, UnpackedFloat.add, UnpackedFloat.neg, neg_apply,
        sub_eq_add_neg]
    | _ => rfl
  | _ => cases v <;> rfl

theorem sub_represents (hu : Represents p u) (hv : Represents q v) :
    Represents (toDouble (p - q)) (UnpackedFloat.sub .binary64 u v) := by
  rw [sub_unpacked_eq_add_neg, sub_eq_add_neg]
  exact add_represents hu (neg_represents hv)

theorem abs_represents (hu : Represents q u) : Represents |q| u.abs := by
  cases hu with
  | zero s =>
    rw [abs_zero]
    exact .zero _
  | @finite s m e hm h =>
    rw [abs_mul, abs_sign_apply, abs_of_pos (zpow_pos two_pos e)]
    exact .finite .positive hm h

end

variable {x y : Float} {p q : ℚ}

theorem hasValue_sub (hx : HasValue x p) (hy : HasValue y q)
    (h : |toDouble (p - q)| < 2 ^ (1024 : ℤ)) : HasValue (x - y) (toDouble (p - q)) :=
  hasValue_pack (sub_represents hx hy) h

theorem hasValue_sub_of_isFinite (hx : HasValue x p) (hy : HasValue y q)
    (h : (x - y).isFinite) : HasValue (x - y) (toDouble (p - q)) := by
  obtain ⟨d, hd⟩ := exists_hasValue h
  exact hasValue_sub hx hy (abs_lt_of_pack (sub_represents hx hy) hd.isInf)

theorem HasValue.abs_lt (h : HasValue x q) : |q| < 2 ^ (1024 : ℤ) - 2 ^ (970 : ℤ) :=
  h.abs_le.trans_lt (sub_lt_sub_left (zpow_lt_zpow_right₀ one_lt_two (by norm_num)) _)

theorem HasValue.granular (h : HasValue x q) : Granular q := by
  have hgranular := granular_toDouble q
  rwa [h.toDouble_eq] at hgranular

theorem hasValue_abs (h : HasValue x q) : HasValue x.abs |q| := by
  refine hasValue_pack (abs_represents h) ?_
  rw [abs_abs]
  exact h.abs_le.trans_lt (sub_lt_self _ (zpow_pos two_pos _))

theorem HasValue.isNaN (h : HasValue x q) : x.isNaN = false := by
  change x.toModel.unpack.isNaN = false
  rw [HasValue] at h
  generalize x.toModel.unpack = u at h ⊢
  cases h <;> rfl

theorem hasValue_larger (hx : HasValue x p) (hy : HasValue y q) :
    HasValue (larger x y) (max p q) := by
  rw [larger, hx.isNaN, hy.isNaN]
  simp only [Bool.false_eq_true, if_false, lt_iff hx hy]
  split
  case isTrue h => rwa [max_eq_right h.le]
  case isFalse h => rwa [max_eq_left (not_lt.mp h)]

/-- Whole numbers of fifty-three bits, and the next, are doubles. -/
theorem toDouble_natCast {n : ℕ} (hn : n ≤ 2 ^ 53) : toDouble n = n := by
  rcases hn.eq_or_lt with rfl | hlt
  · have h := toDouble_of_lt (n := 1) (by norm_num) (e := 53) (by norm_num)
    rw [Nat.cast_one, one_mul] at h
    exact_mod_cast h
  · have h := toDouble_of_lt hlt (e := 0) (by norm_num)
    rwa [zpow_zero, mul_one] at h

theorem hasValue_ofWhole {n : ℕ} (hn : n ≤ 2 ^ 53) : HasValue (ofWhole .positive n) n := by
  have hlarge : |(n : ℚ)| < 2 ^ (1024 : ℤ) := by
    rw [abs_of_nonneg (Nat.cast_nonneg n)]
    calc (n : ℚ) ≤ 2 ^ (53 : ℤ) := by exact_mod_cast hn
      _ < 2 ^ (1024 : ℤ) := zpow_lt_zpow_right₀ one_lt_two (by norm_num)
  rw [ofWhole]
  split
  case isTrue hpos =>
    have h := round_represents .positive hpos 0
    rw [zpow_zero, mul_one, Sign.apply, Int.cast_natCast, toDouble_natCast hn] at h
    exact hasValue_pack h hlarge
  case isFalse hzero =>
    obtain rfl : n = 0 := by omega
    rw [Nat.cast_zero]
    exact hasValue_pack (.zero _) (by rw [abs_zero]; exact zpow_pos two_pos _)

theorem hasValue_toWhole (away : Sign → ℕ → ℕ → Bool) (hx : HasValue x q) (hq : 0 ≤ q) :
    (∃ n : ℕ, q = n ∧ HasValue (toWhole away x) n) ∨
      ∃ m whole : ℕ, 0 < whole ∧ q = m / whole ∧
        HasValue (toWhole away x)
          (if away .positive (m % whole) whole then m / whole + 1 else m / whole : ℕ) := by
  have hvalue := hx
  rw [HasValue] at hx
  rw [toWhole]
  generalize x.toModel.unpack = u at hx ⊢
  cases hx with
  | zero s => exact .inl ⟨0, Nat.cast_zero.symm, by rwa [Nat.cast_zero]⟩
  | @finite s m e hm h =>
    obtain rfl := positive_of_nonneg hm hq
    rw [Sign.apply, Int.cast_natCast] at hvalue ⊢
    dsimp only
    split
    case isTrue he =>
      obtain ⟨k, rfl⟩ := Int.eq_ofNat_of_zero_le he
      have hwhole : (m * 2 ^ (k : ℤ) : ℚ) = (m * 2 ^ k : ℕ) := by
        rw [zpow_natCast]
        push_cast
        rfl
      rw [hwhole] at hvalue ⊢
      exact .inl ⟨_, rfl, hvalue⟩
    case isFalse he =>
      have hwhole : 2 ≤ Nat.pow 2 (-e).toNat := Nat.le_self_pow (by omega) 2
      refine .inr ⟨m, Nat.pow 2 (-e).toNat, Nat.two_pow_pos _, ?_, ?_⟩
      · rw [Nat.pow_eq, Nat.cast_pow, Nat.cast_ofNat, div_eq_mul_inv, ← zpow_natCast, ← zpow_neg]
        congr 2
        omega
      · refine hasValue_ofWhole ?_
        have hlt := h.lt
        have hhalf : m / Nat.pow 2 (-e).toNat ≤ m / 2 := Nat.div_le_div_left hwhole (by omega)
        split <;> omega

theorem div_eq_add_part (m : ℕ) {whole : ℕ} (h : 0 < whole) :
    (m / whole : ℚ) = (m / whole : ℕ) + (m % whole : ℕ) / whole := by
  have hsplit : (m : ℚ) = whole * (m / whole : ℕ) + (m % whole : ℕ) := by
    exact_mod_cast (Nat.div_add_mod m whole).symm
  have hpos : (0 : ℚ) < whole := by exact_mod_cast h
  rw [div_eq_iff hpos.ne', add_mul, div_mul_cancel₀ _ hpos.ne', mul_comm _ (whole : ℚ)]
  exact hsplit

theorem hasValue_ceil (hx : HasValue x q) (hq : 0 ≤ q) : HasValue (ceil x) ⌈q⌉ := by
  have hcut : (∃ n : ℕ, q = n ∧ HasValue (ceil x) n) ∨
      ∃ m whole : ℕ, 0 < whole ∧ q = m / whole ∧
        HasValue (ceil x) (if m % whole != 0 then m / whole + 1 else m / whole : ℕ) :=
    hasValue_toWhole _ hx hq
  rcases hcut with ⟨n, rfl, hceil⟩ | ⟨m, whole, hwhole, rfl, hceil⟩
  · rwa [Int.ceil_natCast, Int.cast_natCast]
  · have hpos : (0 : ℚ) < whole := by exact_mod_cast hwhole
    rw [div_eq_add_part m hwhole, Int.ceil_natCast_add, Int.cast_add, Int.cast_natCast]
    rcases (m % whole).eq_zero_or_pos with hrest | hrest
    · rw [if_neg (by simp [hrest])] at hceil
      rwa [hrest, Nat.cast_zero, zero_div, Int.ceil_zero, Int.cast_zero, add_zero]
    · have hone : ⌈((m % whole : ℕ) / whole : ℚ)⌉ = 1 := by
        rw [Int.ceil_eq_iff, Int.cast_one, sub_self, div_le_one hpos]
        exact ⟨div_pos (by exact_mod_cast hrest) hpos, by exact_mod_cast (Nat.mod_lt m hwhole).le⟩
      rw [if_pos (by simp [hrest.ne']), Nat.cast_add_one] at hceil
      rwa [hone, Int.cast_one]

theorem hasValue_round (hx : HasValue x q) (hq : 0 ≤ q) : HasValue (round x) ⌊q + 1 / 2⌋ := by
  rcases hasValue_toWhole (fun _ rest whole ↦ whole ≤ 2 * rest) hx hq with
    ⟨n, rfl, hround⟩ | ⟨m, whole, hwhole, rfl, hround⟩
  · rw [Int.floor_natCast_add]
    norm_num
    exact hround
  · have hpos : (0 : ℚ) < whole := by exact_mod_cast hwhole
    have hnonneg : (0 : ℚ) ≤ (m % whole : ℕ) / whole := by positivity
    have hpart : ((m % whole : ℕ) / whole : ℚ) < 1 :=
      (div_lt_one hpos).mpr (by exact_mod_cast Nat.mod_lt m hwhole)
    rw [div_eq_add_part m hwhole, add_assoc, Int.floor_natCast_add, Int.cast_add, Int.cast_natCast]
    by_cases hhalf : whole ≤ 2 * (m % whole)
    · have hlarge : (1 / 2 : ℚ) ≤ (m % whole : ℕ) / whole := by
        rw [div_le_div_iff₀ two_pos hpos, one_mul, mul_comm]
        exact_mod_cast hhalf
      have hone : ⌊((m % whole : ℕ) / whole + 1 / 2 : ℚ)⌋ = 1 := by
        rw [Int.floor_eq_iff, Int.cast_one]
        constructor <;> linarith
      rw [if_pos (by simpa using hhalf), Nat.cast_add_one] at hround
      rwa [hone, Int.cast_one]
    · have hsmall : ((m % whole : ℕ) / whole : ℚ) < 1 / 2 := by
        rw [div_lt_div_iff₀ hpos two_pos, one_mul, mul_comm]
        exact_mod_cast not_le.mp hhalf
      have hzero : ⌊((m % whole : ℕ) / whole + 1 / 2 : ℚ)⌋ = 0 := by
        rw [Int.floor_eq_iff, Int.cast_zero]
        constructor <;> linarith
      rw [if_neg (by simpa using hhalf)] at hround
      rwa [hzero, Int.cast_zero, add_zero]

theorem mantissa_shiftRight (em : ExtendedMantissa) (k : ℕ) :
    (em >>> k).mantissa = em.mantissa / 2 ^ k := by
  induction k with
  | zero => exact (Nat.div_one _).symm
  | succ k ih =>
    rw [pow_succ, ← Nat.div_div_eq_div_mul, ← ih]
    rfl

theorem toInt_of_represents {u : UnpackedFloat} {n : ℕ} (h : Represents n u) (low high : ℤ) :
    u.toInt low high = n := by
  generalize hvalue : (n : ℚ) = q at h
  cases h with
  | zero s =>
    obtain rfl : n = 0 := by exact_mod_cast hvalue
    rfl
  | @finite s m e hm h =>
    obtain rfl := positive_of_nonneg hm (hvalue ▸ Nat.cast_nonneg n)
    rw [Sign.apply, Int.cast_natCast] at hvalue
    have hscaled : m * 2 ^ e.toNat = n * 2 ^ (-e).toNat := by
      have hsplit : (2 : ℚ) ^ e * 2 ^ (-e).toNat = 2 ^ e.toNat := by
        rw [← zpow_natCast, ← zpow_natCast, ← zpow_add₀ two_ne_zero]
        congr 1
        omega
      have hcast : (m * 2 ^ e.toNat : ℚ) = n * 2 ^ (-e).toNat := by
        rw [hvalue, mul_assoc, hsplit]
      exact_mod_cast hcast
    have hshift : (0 - (e - e.toNat)).toNat = (-e).toNat := by omega
    simp only [UnpackedFloat.toInt, roundToInt, decreaseExponent, shiftToExponent, sub_zero, hshift,
      mantissa_shiftRight, Sign.apply]
    change ((m <<< e.toNat / 2 ^ (-e).toNat : ℕ) : ℤ) = n
    rw [Nat.shiftLeft_eq, hscaled, Nat.mul_div_cancel _ (Nat.two_pow_pos _)]

theorem toNat_toUInt64 {n : ℕ} (hx : HasValue x n) (hn : n < 2 ^ 64) : x.toUInt64.toNat = n := by
  change (UInt64.ofNatClamp (x.toModel.unpack.toInt 0 (UInt64.size - 1)).toNat).toNat = n
  rw [toInt_of_represents hx, Int.toNat_natCast, UInt64.ofNatClamp]
  exact (congrArg UInt64.toNat (dif_pos hn)).trans (UInt64.toNat_ofNatLT)

def infinity : Float :=
  .ofModel (.pack (.infinity .positive))

theorem pack_eq_infinity {u : UnpackedFloat} (h : Represents q u) (hq : 2 ^ (1024 : ℤ) ≤ q) :
    Float.ofModel (.pack u) = infinity := by
  have hpos : 0 < q := (zpow_pos two_pos _).trans_le hq
  cases h with
  | zero s => exact absurd hpos (lt_irrefl 0)
  | @finite s m e hm h =>
    obtain rfl := positive_of_nonneg hm hpos.le
    have he : ¬ e ≤ 971 := by
      intro he
      have hlast : (0 : ℚ) < 2 ^ (971 : ℤ) := zpow_pos two_pos _
      exact absurd (hq.trans ((le_abs_self _).trans (h.abs_le he .positive)))
        (not_le.mpr (sub_lt_self _ hlast))
    have hinfinite : pack .binary64 (.finite .positive m e hm) =
        pack .binary64 (.infinity .positive) := by
      rw [pack]
      exact if_pos (by simp only [Format.exponentBias]; omega)
    simp only [infinity, Float.Model.pack, hinfinite]

end SystemDynamics.Number
