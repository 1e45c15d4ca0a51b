import EpisodicReplay.Proofs.Rounding.Operations

/-! Packed numbers are canonical, and packing loses only what is too large. -/

namespace EpisodicReplay.Rounding
open Float.Model (Format UnpackedFloat)
open Float.Model.UnpackedFloat (Sign pack unpack packComponents unpackSign unpackExponent unpackMantissa
  unpackExponent_packComponents unpackMantissa_packComponents unpackSign_packComponents)
open Float.Model.UnpackedFloat.Sign (ofBitVec_toBitVec toBitVec_ofBitVec)

/-- The magnitude from which on a format has no finite numbers. -/
def limit (spec : Format) : ℚ :=
  2 ^ (spec.exponentBias + 1)

theorem minExponent_eq (spec : Format) :
    spec.minExponent = 1 - (spec.exponentBias + spec.mantissaBitsWithoutImplicit : ℕ) := by
  have : 1 ≤ 2 ^ (spec.exponentBits - 1) := Nat.one_le_two_pow
  unfold Format.minExponent Format.exponentBias Format.mantissaBits
  push_cast [Nat.cast_sub this]
  ring

theorem two_pow_exponentBits (spec : Format) : 2 ^ spec.exponentBits = 2 * spec.exponentBias + 2 := by
  have : 1 ≤ 2 ^ (spec.exponentBits - 1) := Nat.one_le_two_pow
  have split : spec.exponentBits = spec.exponentBits - 1 + 1 := by
    have := spec.he
    omega
  rw [split, pow_succ]
  unfold Format.exponentBias
  omega

theorem one_le_exponentBias {spec : Format} (wide : 2 ≤ spec.exponentBits) : 1 ≤ spec.exponentBias := by
  have : 2 ^ 2 ≤ 2 ^ spec.exponentBits := Nat.pow_le_pow_right two_pos wide
  have := two_pow_exponentBits spec
  omega

theorem mantissaBits_sub_one (spec : Format) : spec.mantissaBits - 1 = spec.mantissaBitsWithoutImplicit :=
  Nat.add_sub_cancel_left ..

theorem two_pow_mantissaBits_eq (spec : Format) :
    2 ^ spec.mantissaBits = 2 * 2 ^ spec.mantissaBitsWithoutImplicit := by
  rw [Format.mantissaBits, Nat.add_comm, pow_succ, Nat.mul_comm]

theorem toNat_implicit {width : ℕ} (mantissa : BitVec width) :
    (1#1 ++ mantissa).toNat = 2 ^ width + mantissa.toNat := by
  rw [BitVec.toNat_append, ← Nat.shiftLeft_add_eq_or_of_lt mantissa.isLt, Nat.shiftLeft_eq]
  simp

theorem ofNat_ne_zero {width count : ℕ} (positive : 0 < count) (fits : count < 2 ^ width) :
    BitVec.ofNat width count ≠ BitVec.ofNat width 0 := by
  intro equal
  have := congrArg BitVec.toNat equal
  rw [BitVec.toNat_ofNat, Nat.mod_eq_of_lt fits, BitVec.toNat_zero] at this
  omega

theorem ofNat_ne_neg_one {width count : ℕ} (fits : count + 1 < 2 ^ width) :
    BitVec.ofNat width count ≠ -BitVec.ofNat width 1 := by
  intro equal
  have := congrArg BitVec.toNat equal
  rw [BitVec.toNat_ofNat, Nat.mod_eq_of_lt (by omega), BitVec.neg_one_eq_allOnes, BitVec.toNat_allOnes] at this
  omega

/-- Every packed number is canonical. -/
theorem canonical_unpack {spec : Format} (bits : BitVec spec.numBits) : Canonical spec (unpack spec bits) := by
  have least := minExponent_eq spec
  have full := two_pow_mantissaBits_eq spec
  have mantissaLess := (unpackMantissa bits).isLt
  unfold unpack
  dsimp only
  split_ifs with special noMantissa subnormal noMantissa
  · trivial
  · trivial
  · trivial
  · refine grid_count_iff.mpr ⟨?_, by omega, .inl ?_⟩ <;>
      · rw [subnormal, BitVec.toNat_zero, least]
        push_cast
        omega
  · have positive : 0 < (unpackExponent bits).toNat :=
      Nat.pos_of_ne_zero fun zero => subnormal (BitVec.eq_of_toNat_eq zero)
    refine grid_count_iff.mpr ⟨?_, ?_, .inr ?_⟩
    · rw [least]
      push_cast
      omega
    · rw [toNat_implicit]
      omega
    · rw [toNat_implicit, mantissaBits_sub_one]
      omega

/-- A canonical number below the limit has an exponent that the format can store. -/
theorem lt_limit_iff {spec : Format} (wide : 2 ≤ spec.exponentBits) {mantissa : ℕ} {exponent : ℤ}
    (canonical : Grid spec (mantissa * 2 ^ exponent) exponent) :
    mantissa * 2 ^ exponent < limit spec ↔ exponent + spec.mantissaBitsWithoutImplicit ≤ spec.exponentBias := by
  have bias := one_le_exponentBias wide
  have bits : (spec.mantissaBits : ℤ) = spec.mantissaBitsWithoutImplicit + 1 := by
    unfold Format.mantissaBits
    omega
  unfold limit
  rw [← zpow_natCast]
  constructor
  · intro fits
    rcases canonical.tight with least | tight
    · rw [least, minExponent_eq]
      omega
    · have := (zpow_lt_zpow_iff_right₀ (by norm_num : (1 : ℚ) < 2)).mp (tight.trans_lt fits)
      omega
  · intro stored
    exact canonical.below.trans_le (zpow_le_zpow_right₀ (by norm_num) (by omega))

/-- Every packed number is below the limit. -/
theorem magnitude_unpack_lt_limit {spec : Format} (wide : 2 ≤ spec.exponentBits) (bits : BitVec spec.numBits) :
    magnitude (unpack spec bits) < limit spec := by
  have canonical := canonical_unpack bits
  have bias := one_le_exponentBias wide
  have range := two_pow_exponentBits spec
  have exponentLess := (unpackExponent bits).isLt
  have positive : 0 < limit spec := by
    unfold limit
    positivity
  unfold unpack at canonical ⊢
  dsimp only at canonical ⊢
  split_ifs at canonical ⊢ with special noMantissa subnormal noMantissa
  · exact positive
  · exact positive
  · exact positive
  · refine (lt_limit_iff wide canonical).mpr ?_
    rw [subnormal, BitVec.toNat_zero]
    omega
  · have notOnes : (unpackExponent bits).toNat ≠ 2 ^ spec.exponentBits - 1 := by
      intro ones
      apply special
      apply BitVec.eq_of_toNat_eq
      rw [BitVec.neg_one_eq_allOnes, BitVec.toNat_allOnes, ones]
    refine (lt_limit_iff wide canonical).mpr ?_
    omega

/-- The sign of a finite number is its sign bit. -/
theorem toBitVec_sign_unpack {spec : Format} {bits : BitVec spec.numBits}
    (finite : (unpack spec bits).isFinite = true) : (sign (unpack spec bits)).toBitVec = unpackSign bits := by
  unfold unpack at finite ⊢
  dsimp only at finite ⊢
  split_ifs at finite ⊢ with special noMantissa subnormal noMantissa
  · cases finite
  · cases finite
  all_goals exact toBitVec_ofBitVec _

section finite
variable {spec : Format} {sign : Sign} {mantissa : ℕ} {exponent : ℤ} {positive : 0 < mantissa}

/-- A number with all its digits is stored without the first of them. -/
theorem pack_normal
    (inRange : ¬2 ^ spec.exponentBits ≤
      (exponent + spec.exponentBias + spec.mantissaBitsWithoutImplicit).toNat + 1)
    (normal : 2 ^ spec.mantissaBitsWithoutImplicit ≤ mantissa) (below : mantissa < 2 ^ spec.mantissaBits) :
    pack spec (.finite sign mantissa exponent positive) =
      packComponents spec sign
        (BitVec.ofNat _ (exponent + spec.exponentBias + spec.mantissaBitsWithoutImplicit).toNat)
        (BitVec.ofNat _ mantissa) := by
  have width : mantissa.log2 + 1 = spec.mantissaBits := by
    have low := (Nat.le_log2 positive.ne').mpr normal
    have high := (Nat.log2_lt positive.ne').mpr below
    unfold Format.mantissaBits at high ⊢
    omega
  simp only [pack]
  rw [if_neg inRange, if_pos width]

theorem pack_subnormal
    (inRange : ¬2 ^ spec.exponentBits ≤
      (exponent + spec.exponentBias + spec.mantissaBitsWithoutImplicit).toNat + 1)
    (subnormal : mantissa < 2 ^ spec.mantissaBitsWithoutImplicit) :
    pack spec (.finite sign mantissa exponent positive) =
      packComponents spec sign (BitVec.ofNat _ 0) (BitVec.ofNat _ mantissa) := by
  have width : ¬mantissa.log2 + 1 = spec.mantissaBits := by
    have := (Nat.log2_lt positive.ne').mpr subnormal
    unfold Format.mantissaBits
    omega
  simp only [pack]
  rw [if_neg inRange, if_neg width]

end finite

/-- Packing keeps every number of the format. -/
theorem unpack_pack {spec : Format} (wide : 2 ≤ spec.exponentBits) {unpacked : UnpackedFloat}
    (canonical : Canonical spec unpacked) (fits : magnitude unpacked < limit spec) :
    unpack spec (pack spec unpacked) = unpacked := by
  have zeroExponent : BitVec.ofNat spec.exponentBits 0 ≠ -BitVec.ofNat spec.exponentBits 1 :=
    ofNat_ne_neg_one (by have := two_pow_exponentBits spec; omega)
  cases unpacked with
  | infinity sign => simp [pack, unpack, UnpackedFloat.packedInfinity]
  | notANumber => exact UnpackedFloat.unpack_packedNaN
  | zero sign => exact UnpackedFloat.unpack_packedZero
  | finite sign mantissa exponent positive =>
      have stored := (lt_limit_iff wide canonical).mp fits
      obtain ⟨least, below, tight⟩ := grid_count_iff.mp canonical
      have full := two_pow_mantissaBits_eq spec
      have range := two_pow_exponentBits spec
      rw [minExponent_eq] at least tight
      rw [mantissaBits_sub_one] at tight
      let biased := (exponent + spec.exponentBias + spec.mantissaBitsWithoutImplicit).toNat
      have biasedEq : (biased : ℤ) = exponent + spec.exponentBias + spec.mantissaBitsWithoutImplicit :=
        Int.toNat_of_nonneg (by omega)
      have inRange : ¬2 ^ spec.exponentBits ≤ biased + 1 := by omega
      by_cases normal : 2 ^ spec.mantissaBitsWithoutImplicit ≤ mantissa
      · have dropped : 2 ^ spec.mantissaBitsWithoutImplicit + mantissa % 2 ^ spec.mantissaBitsWithoutImplicit =
            mantissa := by
          rw [Nat.mod_eq_sub_mod normal, Nat.mod_eq_of_lt (by omega)]
          omega
        have nonzero : BitVec.ofNat spec.exponentBits biased ≠ BitVec.ofNat _ 0 := ofNat_ne_zero (by omega) (by omega)
        have finite : BitVec.ofNat spec.exponentBits biased ≠ -1#_ := ofNat_ne_neg_one (by omega)
        have packed : pack spec (.finite sign mantissa exponent positive) =
            packComponents spec sign (BitVec.ofNat _ biased) (BitVec.ofNat _ mantissa) :=
          pack_normal inRange normal below
        rw [packed]
        simp only [unpack, unpackMantissa_packComponents, unpackExponent_packComponents, unpackSign_packComponents,
          finite, nonzero, if_false, toNat_implicit, BitVec.toNat_ofNat, dropped, ofBitVec_toBitVec,
          Nat.mod_eq_of_lt (show biased < 2 ^ spec.exponentBits by omega), biasedEq]
        congr 1
        omega
      · have nonzero : BitVec.ofNat spec.mantissaBitsWithoutImplicit mantissa ≠ BitVec.ofNat _ 0 :=
          ofNat_ne_zero positive (by omega)
        rw [pack_subnormal inRange (Nat.lt_of_not_le normal)]
        simp only [unpack, unpackMantissa_packComponents, unpackExponent_packComponents, unpackSign_packComponents,
          zeroExponent, nonzero, if_false, if_true, dite_false, BitVec.toNat_ofNat, ofBitVec_toBitVec,
          Nat.mod_eq_of_lt (Nat.lt_of_not_le normal)]
        congr 1
        rw [tight.resolve_right normal, Nat.zero_mod]
        push_cast
        ring

end EpisodicReplay.Rounding
