import Mathlib

namespace SystemDynamics.Number

open Float.Model (Format UnpackedFloat)
open Float.Model.UnpackedFloat

/-- The mantissas and exponents of finite doubles, but for the bound on the exponent. -/
structure Canonical (m : ℕ) (e : ℤ) : Prop where
  lt : m < 2 ^ 53
  least : -1074 ≤ e
  full : 2 ^ 52 ≤ m ∨ e = -1074

/-- The leading bit of a full mantissa is implied. -/
theorem toNat_implicit_append (m : BitVec 52) : (1#1 ++ m).toNat = 2 ^ 52 + m.toNat := by
  rw [BitVec.toNat_append, ← Nat.shiftLeft_add_eq_or_of_lt m.isLt]
  rfl

theorem ofNat_eleven_ne {b c : ℕ} (hb : b < 2 ^ 11) (hc : c < 2 ^ 11) (h : b ≠ c) :
    BitVec.ofNat 11 b ≠ BitVec.ofNat 11 c := by
  intro heq
  have := congrArg BitVec.toNat heq
  rw [BitVec.toNat_ofNat, BitVec.toNat_ofNat, Nat.mod_eq_of_lt hb, Nat.mod_eq_of_lt hc] at this
  exact h this

theorem unpack_normal (s : Sign) {m b : ℕ} (hm : 2 ^ 52 ≤ m) (hm' : m < 2 ^ 53) (hb : 0 < b)
    (hb' : b < 2047) :
    unpack .binary64 (packComponents .binary64 s (BitVec.ofNat 11 b) (BitVec.ofNat 52 m)) =
      .finite s m (b - 1075) (by omega) := by
  have hzero : BitVec.ofNat 11 b ≠ 0#11 := ofNat_eleven_ne (by omega) (by omega) hb.ne'
  have hones : BitVec.ofNat 11 b ≠ -1#11 := ofNat_eleven_ne (c := 2047) (by omega) (by omega) hb'.ne
  have hmantissa : (1#1 ++ BitVec.ofNat 52 m).toNat = m := by
    rw [toNat_implicit_append, BitVec.toNat_ofNat]
    omega
  have hexponent : (BitVec.ofNat 11 b).toNat = b := by
    rw [BitVec.toNat_ofNat]
    omega
  simp only [unpack, unpackExponent_packComponents, unpackMantissa_packComponents,
    unpackSign_packComponents, Sign.ofBitVec_toBitVec, hones, hzero, ↓reduceIte, hmantissa,
    hexponent]
  rfl

theorem unpack_subnormal (s : Sign) {m : ℕ} (hm : 0 < m) (hm' : m < 2 ^ 52) :
    unpack .binary64 (packComponents .binary64 s 0#11 (BitVec.ofNat 52 m)) =
      .finite s m (-1074) hm := by
  have hones : 0#11 ≠ -1#11 := by decide
  have hmantissa : (BitVec.ofNat 52 m).toNat = m := by
    rw [BitVec.toNat_ofNat]
    omega
  have hzero : BitVec.ofNat 52 m ≠ 0#52 := by
    intro heq
    rw [heq] at hmantissa
    exact hm.ne hmantissa
  simp only [unpack, unpackExponent_packComponents, unpackMantissa_packComponents,
    unpackSign_packComponents, Sign.ofBitVec_toBitVec, hones, hzero, ↓reduceIte, ↓reduceDIte,
    hmantissa]
  rfl

theorem pack_normal (s : Sign) {m : ℕ} (hm : 2 ^ 52 ≤ m) (hm' : m < 2 ^ 53) {e : ℤ} (he : e ≤ 971) :
    pack .binary64 (.finite s m e (by omega)) =
      packComponents .binary64 s (BitVec.ofNat 11 (e + 1075).toNat) (BitVec.ofNat 52 m) := by
  have hbiased : e + ((1023 : ℕ) : ℤ) + ((52 : ℕ) : ℤ) = e + 1075 := by omega
  have hfits : ¬ 2 ^ 11 ≤ (e + ((1023 : ℕ) : ℤ) + ((52 : ℕ) : ℤ)).toNat + 1 := by omega
  have hlog : m.log2 = 52 := (Nat.log2_eq_iff (by omega)).mpr ⟨hm, hm'⟩
  rw [← hbiased, pack]
  exact (if_neg hfits).trans (if_pos (by rw [hlog]; rfl))

theorem pack_subnormal (s : Sign) {m : ℕ} (hm : 0 < m) (hm' : m < 2 ^ 52) :
    pack .binary64 (.finite s m (-1074) hm) =
      packComponents .binary64 s 0#11 (BitVec.ofNat 52 m) := by
  have hlog : m.log2 < 52 := (Nat.log2_lt hm.ne').mpr hm'
  rw [pack]
  exact (if_neg (by decide)).trans (if_neg (by simp only [Format.mantissaBits]; omega))

theorem unpack_pack {s : Sign} {m : ℕ} {e : ℤ} {hm : 0 < m} (h : Canonical m e) (he : e ≤ 971) :
    unpack .binary64 (pack .binary64 (.finite s m e hm)) = .finite s m e hm := by
  have hleast := h.least
  by_cases hfull : 2 ^ 52 ≤ m
  · rw [pack_normal s hfull h.lt he, unpack_normal s hfull h.lt (by omega) (by omega)]
    congr 1
    omega
  · obtain rfl : e = -1074 := h.full.resolve_left hfull
    rw [pack_subnormal s hm (by omega), unpack_subnormal s hm (by omega)]

theorem canonical_of_unpack {b : BitVec 64} {s : Sign} {m : ℕ} {e : ℤ} {hm : 0 < m}
    (h : unpack .binary64 b = .finite s m e hm) : Canonical m e ∧ e ≤ 971 := by
  have hmantissa : (@unpackMantissa .binary64 b).toNat < 2 ^ 52 :=
    (@unpackMantissa .binary64 b).isLt
  have hexponent : (@unpackExponent .binary64 b).toNat < 2 ^ 11 :=
    (@unpackExponent .binary64 b).isLt
  have hbias : Format.binary64.exponentBias = 1023 := rfl
  rw [unpack] at h
  dsimp only at h
  split_ifs at h with hones hempty hzero hempty
  · obtain ⟨-, rfl, rfl⟩ := UnpackedFloat.finite.inj h
    have he : ((@unpackExponent .binary64 b).toNat : ℤ) -
        (Format.binary64.exponentBias + (52 : ℕ)) + 1 = -1074 := by
      rw [hzero]
      rfl
    rw [he]
    exact ⟨⟨by omega, by omega, .inr rfl⟩, by omega⟩
  · obtain ⟨-, rfl, rfl⟩ := UnpackedFloat.finite.inj h
    have hpos : (@unpackExponent .binary64 b).toNat ≠ 0 := fun h0 ↦
      hzero (BitVec.eq_of_toNat_eq h0)
    have hless : (@unpackExponent .binary64 b).toNat ≠ 2047 := fun h0 ↦
      hones (BitVec.eq_of_toNat_eq h0)
    rw [toNat_implicit_append, hbias]
    exact ⟨⟨by omega, by omega, .inl (by omega)⟩, by omega⟩

theorem packComponents_unpack (b : BitVec 64) :
    packComponents .binary64 (.ofBitVec (@unpackSign .binary64 b)) (@unpackExponent .binary64 b)
      (@unpackMantissa .binary64 b) = b := by
  have hsign : ∀ c : BitVec 1, (Sign.ofBitVec c).toBitVec = c := by decide
  rw [packComponents, hsign]
  change b.extractLsb 63 63 ++ b.extractLsb 62 52 ++ b.extractLsb 51 0 = b
  grind

theorem pack_unpack {b : BitVec 64} (h : (unpack .binary64 b).isFinite) :
    pack .binary64 (unpack .binary64 b) = b := by
  have hparts := packComponents_unpack b
  have hmantissa : (@unpackMantissa .binary64 b).toNat < 2 ^ 52 :=
    (@unpackMantissa .binary64 b).isLt
  have hexponent : (@unpackExponent .binary64 b).toNat < 2 ^ 11 :=
    (@unpackExponent .binary64 b).isLt
  rw [unpack] at h ⊢
  dsimp only at h ⊢
  split_ifs at h ⊢ with hones hempty hzero hempty
  · simp [UnpackedFloat.isFinite] at h
  · simp [UnpackedFloat.isFinite] at h
  · rw [hempty, hzero] at hparts
    exact hparts
  · have hpos : 0 < (@unpackMantissa .binary64 b).toNat :=
      Nat.pos_of_ne_zero fun h0 ↦ hempty (BitVec.eq_of_toNat_eq h0)
    have he : ((@unpackExponent .binary64 b).toNat : ℤ) -
        (Format.binary64.exponentBias + (52 : ℕ)) + 1 = -1074 := by
      rw [hzero]
      rfl
    rw [he, pack_subnormal _ hpos hmantissa, BitVec.ofNat_toNat, BitVec.setWidth_eq, ← hzero]
    exact hparts
  · have hless : (@unpackExponent .binary64 b).toNat ≠ 2047 := fun h0 ↦
      hones (BitVec.eq_of_toNat_eq h0)
    have hbias : Format.binary64.exponentBias = 1023 := rfl
    have hm := toNat_implicit_append (@unpackMantissa .binary64 b)
    have he : (((@unpackExponent .binary64 b).toNat : ℤ) -
        (Format.binary64.exponentBias + (52 : ℕ)) + 1075).toNat =
          (@unpackExponent .binary64 b).toNat := by
      omega
    have hbits : BitVec.ofNat 52 (1#1 ++ @unpackMantissa .binary64 b).toNat =
        @unpackMantissa .binary64 b := by
      refine BitVec.eq_of_toNat_eq ?_
      rw [hm, BitVec.toNat_ofNat]
      omega
    rw [pack_normal _ (by omega) (by omega) (by omega), he, hbits, BitVec.ofNat_toNat,
      BitVec.setWidth_eq]
    exact hparts

end SystemDynamics.Number
