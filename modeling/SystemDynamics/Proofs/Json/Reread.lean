import SystemDynamics.Proofs.Json.Scaling
import SystemDynamics.Proofs.Json.Writing
import SystemDynamics.Proofs.Number.Shortest

namespace SystemDynamics.Json

open SystemDynamics.Number
open Float.Model.UnpackedFloat

def reread (x : Float) : Option Float :=
  (readNumber (spelling.write x).toList).map fun r ↦ r.1.toFloat

def numeral (x : Float) : Numeral :=
  match x.toModel.unpack with
  | .finite s m e _ =>
    let d := shortest .even m e
    written (s == .negative) (Nat.toDigits 10 d.coefficient) d.exponent
  | .zero s => written (s == .negative) ['0'] 0
  | _ => written false ['0'] 0

variable {x : Float}

theorem minus_eq (s : Sign) : minus s = if s == .negative then ['-'] else [] := by
  cases s <;> rfl

theorem toList_write (hx : x.isFinite) : (spelling.write x).toList = (numeral x).text := by
  rw [Spelling.write, numeral]
  rcases unpack_of_isFinite hx with ⟨s, hu⟩ | ⟨s, m, e, hm, hu⟩
  · rw [hu]
    cases s <;> rfl
  · simp only [hu]
    rw [String.toList_ofList, text_written, minus_eq]
    rfl

structure IsNumeralOf (n : Numeral) (s : Sign) (m : ℕ) (e : ℤ) : Prop where
  isNegative : n.isNegative = (s == .negative)
  near : Near m e (n.significand * 10 ^ n.weight)
  pos : 0 < n.significand
  lt : n.significand < 2 ^ 64
  least : -342 ≤ n.weight
  greatest : n.weight ≤ 308

theorem isNumeralOf_written (s : Sign) {m c : ℕ} {e p : ℤ} (hnear : Near m e (c * 10 ^ p))
    (hc : 0 < c) (hlt : c < 2 ^ 57) (hp : -342 ≤ p) (hp' : p ≤ 308) :
    IsNumeralOf (written (s == .negative) (Nat.toDigits 10 c) p) s m e := by
  have hsignificand : (written (s == .negative) (Nat.toDigits 10 c) p).significand = _ :=
    significand_written (s == .negative) p
  have hweight := weight_written (s == .negative) (isDigits_toDigits c) p
  rw [ofDigits_toDigits] at hsignificand
  by_cases hfull : spelling.positional ((Nat.toDigits 10 c).length + p - 1) ∧ 0 ≤ p
  · obtain ⟨hpositional, hwhole⟩ := hfull
    rw [if_pos ⟨hpositional, hwhole⟩] at hsignificand hweight
    obtain ⟨k, rfl⟩ := Int.eq_ofNat_of_zero_le hwhole
    rw [Int.toNat_natCast] at hsignificand
    have hdigits := (Nat.length_toDigits_le_iff (by decide) Nat.length_toDigits_pos).mp
      (le_refl (Nat.toDigits 10 c).length)
    simp only [spelling, Bool.and_eq_true, decide_eq_true_eq] at hpositional
    have hsmall : c * 10 ^ (k + 1) < 10 ^ 17 := by
      calc c * 10 ^ (k + 1) < 10 ^ (Nat.toDigits 10 c).length * 10 ^ (k + 1) :=
            Nat.mul_lt_mul_of_pos_right hdigits (Nat.pow_pos (by decide))
        _ ≤ 10 ^ 17 := by
            rw [← Nat.pow_add]
            exact Nat.pow_le_pow_right (by decide) (by omega)
    refine ⟨written_isNegative _ _, ?_, ?_, ?_, ?_, ?_⟩
    all_goals simp only [hsignificand, hweight]
    · have hvalue : ((c * 10 ^ (k + 1) : ℕ) * 10 ^ (-1 : ℤ) : ℚ) = c * 10 ^ (k : ℤ) := by
        rw [zpow_natCast]
        push_cast
        rw [pow_succ, zpow_neg_one]
        ring
      rwa [hvalue]
    · exact Nat.mul_pos hc (Nat.pow_pos (by decide))
    · exact hsmall.trans (by decide)
    · decide
    · decide
  · rw [if_neg hfull] at hsignificand hweight
    refine ⟨written_isNegative _ _, ?_, ?_, ?_, ?_, ?_⟩ <;> simp only [hsignificand, hweight]
    exacts [hnear, hc, hlt.trans (by decide), hp, hp']

theorem isNumeralOf_numeral {s : Sign} {m : ℕ} {e : ℤ} {hm : 0 < m}
    (hu : x.toModel.unpack = .finite s m e hm) : IsNumeralOf (numeral x) s m e := by
  obtain ⟨hcanonical, he⟩ := canonical_of_unpack hu
  obtain ⟨c, p, hshortest, hnear, hc, hlt, hp, hp'⟩ := shortest_spec .even hm hcanonical he
  rw [numeral, hu]
  simp only [hshortest]
  exact isNumeralOf_written s hnear hc hlt hp hp'

theorem numeral_of_zero {s : Sign} (hu : x.toModel.unpack = .zero s) :
    numeral x = ⟨s == .negative, ['0'], some ['0'], none⟩ := by
  rw [numeral, hu]
  rfl

theorem wellFormed_numeral (hx : x.isFinite) : (numeral x).WellFormed := by
  rcases unpack_of_isFinite hx with ⟨s, hu⟩ | ⟨s, m, e, hm, hu⟩
  · rw [numeral_of_zero hu]
    exact ⟨by simp [IsDigits], fun _ ↦ rfl, by simp [IsDigits], nofun⟩
  · obtain ⟨hcanonical, he⟩ := canonical_of_unpack hu
    obtain ⟨c, p, hshortest, -, hc, -⟩ := shortest_spec .even hm hcanonical he
    rw [numeral, hu]
    simp only [hshortest]
    exact written_wellFormed _ (isDigits_toDigits c) (head_toDigits hc) p

theorem readNumber_write (hx : x.isFinite) {t : Text} (ht : Ends t) :
    readNumber ((spelling.write x).toList ++ t) = (numeral x).value.map fun n ↦ (n, t) := by
  rw [toList_write hx, readNumber, readNumeral_text (wellFormed_numeral hx) ht]
  cases h : (numeral x).value <;> simp [h]

theorem reread_eq (hx : x.isFinite) : reread x = (numeral x).value.map Number.toFloat := by
  have hread := readNumber_write hx (t := []) nofun
  rw [List.append_nil] at hread
  rw [reread, hread, Option.map_map]
  rfl

theorem value_numeral (hx : x.isFinite) : (numeral x).value =
    (scale ((numeral x).weight.natAbs + 1) (Float.ofNat (numeral x).significand)
      (numeral x).weight).map fun y ↦ .float (if (numeral x).isNegative then -y else y) := by
  rcases unpack_of_isFinite hx with ⟨s, hu⟩ | ⟨s, m, e, hm, hu⟩
  · rw [numeral_of_zero hu]
    exact Numeral.value_eq (.inl rfl) (Nat.two_pow_pos 64)
  · refine Numeral.value_eq ?_ (isNumeralOf_numeral hu).lt
    rw [numeral, hu]
    exact written_isSome _ _

theorem reread_eq_scale (hx : x.isFinite) : reread x =
    (scale ((numeral x).weight.natAbs + 1) (Float.ofNat (numeral x).significand)
      (numeral x).weight).map fun y ↦ if (numeral x).isNegative then -y else y := by
  rw [reread_eq hx, value_numeral hx, Option.map_map]
  rfl

theorem isReadAs_float {y : Float} (hx : x.isFinite) (h : reread x = some y) :
    (Number.float x).IsReadAs (.float y) := by
  intro t ht
  rw [Number.write, readNumber_write hx ht, value_numeral hx]
  rw [reread_eq_scale hx] at h
  obtain ⟨z, hz, rfl⟩ := Option.map_eq_some_iff.mp h
  rw [hz]
  rfl

theorem isFinite_neg {y : Float} (hy : y.isFinite) : (-y).isFinite := by
  obtain ⟨q, hq⟩ := exists_hasValue hy
  exact (hasValue_neg hq).isFinite

def magnitude (m : ℕ) (e : ℤ) : Numeral :=
  written false (Nat.toDigits 10 (shortest .even m e).coefficient) (shortest .even m e).exponent

theorem numeral_of_finite {s : Sign} {m : ℕ} {e : ℤ} {hm : 0 < m}
    (hu : x.toModel.unpack = .finite s m e hm) :
    (numeral x).significand = (magnitude m e).significand ∧
      (numeral x).weight = (magnitude m e).weight := by
  rw [numeral, hu]
  simp only [magnitude, significand_written, weight_written _ (isDigits_toDigits _), and_self]

/-- The three largest doubles, too large for the bound on the product. -/
theorem scale_largest : ∀ k < 3, ∃ y ∈ scale ((magnitude (2 ^ 53 - 1 - k) 971).weight.natAbs + 1)
    (Float.ofNat (magnitude (2 ^ 53 - 1 - k) 971).significand)
      (magnitude (2 ^ 53 - 1 - k) 971).weight, y.isFinite := by
  decide +kernel

/-- Only three doubles are nearer to `2 ^ 1024` than four grains. -/
theorem largest_of_lt {m : ℕ} {e : ℤ} (h : Canonical m e) (he : e ≤ 971)
    (hlt : (2 ^ 53 - 4) * 2 ^ (971 : ℤ) < (m * 2 ^ e : ℚ)) :
    e = 971 ∧ ∃ k < 3, m = 2 ^ 53 - 1 - k := by
  have hpos : (0 : ℚ) < 2 ^ (971 : ℤ) := zpow_pos two_pos _
  have hm : (m : ℚ) < 2 ^ 53 := by exact_mod_cast h.lt
  have htop : e = 971 := by
    by_contra hne
    have hhalf : (2 : ℚ) ^ e ≤ 2 ^ (971 : ℤ) / 2 := by
      rw [div_eq_mul_inv, ← zpow_sub_one₀ two_ne_zero]
      exact zpow_le_zpow_right₀ one_le_two (by omega)
    have hle := mul_le_mul hm.le hhalf (zpow_pos two_pos _).le (by norm_num)
    generalize (2 : ℚ) ^ (971 : ℤ) = largest at *
    linarith
  subst htop
  have hlarge : 2 ^ 53 - 4 < m := by
    have hcast := lt_of_mul_lt_mul_right hlt hpos.le
    have : ((2 ^ 53 : ℕ) : ℚ) < (m + 4 : ℕ) := by
      push_cast
      linarith
    have := Nat.cast_lt.mp this
    omega
  exact ⟨rfl, 2 ^ 53 - 1 - m, by omega, by have := h.lt; omega⟩

theorem exists_scale {s : Sign} {m : ℕ} {e : ℤ} {hm : 0 < m}
    (hu : x.toModel.unpack = .finite s m e hm) :
    ∃ y, scale ((numeral x).weight.natAbs + 1) (Float.ofNat (numeral x).significand)
      (numeral x).weight = some y ∧ y.isFinite := by
  obtain ⟨hcanonical, he⟩ := canonical_of_unpack hu
  obtain ⟨-, hnear, hn, hlt, hleast, hgreatest⟩ := isNumeralOf_numeral hu
  rcases lt_or_ge (numeral x).weight 0 with hneg | hnonneg
  · obtain ⟨k, hk⟩ := Int.exists_eq_neg_ofNat hneg.le
    rw [hk, Int.natAbs_neg, Int.natAbs_natCast]
    rcases Nat.lt_or_ge 308 k with hfar | hclose
    · obtain ⟨k, rfl⟩ := Nat.exists_eq_add_of_lt hfar
      obtain ⟨y, hy, hvalue⟩ := scale_far_down hlt.le hn (Nat.succ_pos k) (by omega) (308 + k)
      exact ⟨y, hy, hvalue.isFinite⟩
    · obtain ⟨y, hy, hvalue⟩ := scale_down hlt.le (by omega : 0 < k) hclose k
      exact ⟨y, hy, hvalue.isFinite⟩
  · obtain ⟨k, hk⟩ := Int.eq_ofNat_of_zero_le hnonneg
    by_cases hlarge : (2 ^ 53 - 4) * 2 ^ (971 : ℤ) < (m * 2 ^ e : ℚ)
    · -- The roundings could lead past `2 ^ 1024` here, so that the products are evaluated.
      obtain ⟨rfl, k, hk, rfl⟩ := largest_of_lt hcanonical he hlarge
      obtain ⟨hsignificand, hweight⟩ := numeral_of_finite hu
      rw [hsignificand, hweight]
      exact scale_largest k hk
    · have hupper := hnear.upper
      rw [hk, zpow_natCast] at hupper
      have hgrain : (2 : ℚ) ^ e ≤ 2 ^ (971 : ℤ) := zpow_le_zpow_right₀ one_le_two he
      have hproduct := abs_product_lt (k := k) hn (by linarith)
      obtain ⟨y, hy, hvalue⟩ := scale_up hlt.le (by omega : k ≤ 308) hproduct k
      rw [hk, Int.natAbs_natCast]
      exact ⟨y, hy, hvalue.isFinite⟩

theorem scale_of_zero {s : Sign} (hu : x.toModel.unpack = .zero s) :
    scale ((numeral x).weight.natAbs + 1) (Float.ofNat (numeral x).significand)
      (numeral x).weight = some 0 := by
  have hzero : scale 2 (Float.ofNat 0) (-1) = some 0 := by decide +kernel
  rw [numeral_of_zero hu]
  exact hzero

theorem exists_reread (hx : x.isFinite) : ∃ y, reread x = some y ∧ y.isFinite := by
  have hscaled : ∃ y, scale ((numeral x).weight.natAbs + 1) (Float.ofNat (numeral x).significand)
      (numeral x).weight = some y ∧ y.isFinite := by
    rcases unpack_of_isFinite hx with ⟨s, hu⟩ | ⟨s, m, e, hm, hu⟩
    · exact ⟨0, scale_of_zero hu, by decide⟩
    · exact exists_scale hu
  obtain ⟨y, hy, hfinite⟩ := hscaled
  rw [reread_eq_scale hx, hy]
  refine ⟨_, rfl, ?_⟩
  split
  case isTrue => exact isFinite_neg hfinite
  case isFalse => exact hfinite

theorem hasValue_signed {y : Float} {q : ℚ} (h : HasValue y q) (s : Sign) :
    HasValue (if s == .negative then -y else y) (s.apply 1 * q) := by
  cases s with
  | positive => simpa [Sign.apply] using h
  | negative => simpa [Sign.apply] using hasValue_neg h

/-- Two doubles no more than ten grains of the first apart. -/
def IsClose (x y : Float) : Prop :=
  ∃ p q, HasValue x p ∧ HasValue y q ∧ |q - p| ≤ 10 * 2 ^ grain p

/-- Reading what was written leads no more than ten grains away. -/
theorem isClose_of_reread {y : Float} (hx : x.isFinite) (h : reread x = some y) : IsClose x y := by
  rw [reread_eq_scale hx] at h
  obtain ⟨z, hz, rfl⟩ := Option.map_eq_some_iff.mp h
  rcases unpack_of_isFinite hx with ⟨s, hu⟩ | ⟨s, m, e, hm, hu⟩
  · obtain rfl := Option.some.inj ((scale_of_zero hu).symm.trans hz)
    have hzero : HasValue 0 0 := .zero .positive
    rw [numeral_of_zero hu]
    refine ⟨_, _, hasValue_of_zero hu, hasValue_signed hzero s, ?_⟩
    rw [mul_zero, sub_zero, abs_zero]
    positivity
  · obtain ⟨hcanonical, -⟩ := canonical_of_unpack hu
    obtain ⟨hnegative, hnear, hn, hlt, hleast, hgreatest⟩ := isNumeralOf_numeral hu
    obtain ⟨p, hoff, hvalue⟩ := off_of_scale hlt.le hn hleast hgreatest hz
    rw [hnegative]
    refine ⟨_, _, hasValue_of_finite hu, hasValue_signed hvalue s, ?_⟩
    have hone : |((s.apply 1 : ℤ) : ℚ)| = 1 := by simpa using abs_sign_apply s 1
    rw [hcanonical.grain_eq hm s, cast_apply s m, mul_assoc, ← mul_sub, abs_mul, hone, one_mul]
    exact hoff.near hnear hm hcanonical

theorem reread_of_short (hx : x.isFinite) (hdigits : (numeral x).significand < 2 ^ 53)
    (hweight : (numeral x).weight.natAbs ≤ 22) : reread x = some x := by
  rw [reread_eq_scale hx]
  rcases unpack_of_isFinite hx with ⟨s, hu⟩ | ⟨s, m, e, hm, hu⟩
  · rw [scale_of_zero hu, numeral_of_zero hu, Option.map_some, Option.some_inj]
    refine (eq_of_unpack hx ?_).symm
    rw [hu]
    cases s <;> rfl
  · obtain ⟨hcanonical, -⟩ := canonical_of_unpack hu
    have hnumeral := isNumeralOf_numeral hu
    obtain ⟨y, hy, hvalue⟩ := scale_exact hdigits hweight (numeral x).weight.natAbs
    rw [hnumeral.near.toDouble_eq hm hcanonical] at hvalue
    rw [hy, Option.map_some, Option.some_inj, hnumeral.isNegative]
    have hsigned := hasValue_signed hvalue s
    rw [← mul_assoc, ← cast_apply s m] at hsigned
    refine hsigned.unique (hasValue_of_finite hu) (abs_pos.mp ?_)
    rw [abs_mul, abs_sign_apply]
    positivity

end SystemDynamics.Json
