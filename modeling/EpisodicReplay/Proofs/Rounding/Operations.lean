import EpisodicReplay.Proofs.Rounding.Value

/-! The four operations on unpacked numbers give the exact result rounded once. -/

namespace EpisodicReplay.Rounding
open Float.Model (Format UnpackedFloat totalExponent)
open Float.Model.UnpackedFloat (Accuracy ExtendedMantissa Sign accuracyOfFraction decreaseExponent divCore
  roundWithAccuracy)

theorem encodes_exact (mantissa : ℕ) : Encodes (.ofMantissaAndAccuracy mantissa .exact) mantissa :=
  sub_self (mantissa : ℚ)

/-- The remainder of a division tells where the quotient lies. -/
theorem encodes_fraction (quotient : ℕ) {remainder divisor : ℕ} (less : remainder < divisor) :
    Encodes (.ofMantissaAndAccuracy quotient (accuracyOfFraction remainder divisor))
      (quotient + remainder / divisor) := by
  have positive : (0 : ℚ) < divisor := by exact_mod_cast Nat.zero_lt_of_lt less
  have below : (remainder : ℚ) / divisor < 1 := by
    rw [div_lt_one positive]
    exact_mod_cast less
  unfold accuracyOfFraction
  split_ifs with zero
  · simp [Encodes, Residue, ExtendedMantissa.ofMantissaAndAccuracy, zero]
  · have above : (0 : ℚ) < remainder / divisor := by
      have : (0 : ℚ) < remainder := by exact_mod_cast Nat.pos_of_ne_zero zero
      positivity
    rcases lt_trichotomy (2 * remainder) divisor with order | order | order
    · have half : (remainder : ℚ) / divisor < 1 / 2 := by
        rw [div_lt_iff₀ positive]
        have : (2 * remainder : ℚ) < divisor := by exact_mod_cast order
        linarith
      rw [Nat.compare_eq_lt.mpr order]
      refine ⟨?_, ?_⟩ <;> simpa only [ExtendedMantissa.ofMantissaAndAccuracy, add_sub_cancel_left]
    · have half : (remainder : ℚ) / divisor = 1 / 2 := by
        rw [div_eq_iff positive.ne']
        have : (2 * remainder : ℚ) = divisor := by exact_mod_cast order
        linarith
      rw [Nat.compare_eq_eq.mpr order]
      simpa [Encodes, Residue, ExtendedMantissa.ofMantissaAndAccuracy] using half
    · have half : 1 / 2 < (remainder : ℚ) / divisor := by
        rw [lt_div_iff₀ positive]
        have : (divisor : ℚ) < 2 * remainder := by exact_mod_cast order
        linarith
      rw [Nat.compare_eq_gt.mpr order]
      refine ⟨?_, ?_⟩ <;> simpa only [ExtendedMantissa.ofMantissaAndAccuracy, add_sub_cancel_left]

theorem fine_of_le_minExponent {spec : Format} {mantissa : ℕ} {exponent : ℤ} (least : exponent ≤ spec.minExponent) :
    Fine spec mantissa exponent :=
  least.trans (le_max_right ..)

/-- A full mantissa is fine at any exponent. -/
theorem fine_of_full {spec : Format} {mantissa : ℕ} {exponent : ℤ} (full : 2 ^ (spec.mantissaBits - 1) ≤ mantissa) :
    Fine spec mantissa exponent := by
  have positive : mantissa ≠ 0 := (Nat.two_pow_pos _).trans_le full |>.ne'
  have := (Nat.le_log2 positive).mpr full
  unfold Fine Format.targetExponent totalExponent
  omega

theorem log2_shiftLeft {mantissa : ℕ} (positive : 0 < mantissa) (count : ℕ) :
    (mantissa <<< count).log2 = mantissa.log2 + count := by
  induction count with
  | zero => rfl
  | succ count inductionHypothesis =>
      have shifted : 0 < mantissa <<< count := by
        rw [Nat.shiftLeft_eq]
        positivity
      rw [Nat.shiftLeft_succ, Nat.log2_two_mul shifted.ne', inductionHypothesis, Nat.add_assoc]

/-- Rounds a mantissa at any exponent. -/
theorem round_rounds {spec : Format} {sign : Sign} {mantissa : ℕ} {exponent : ℤ} (positive : 0 < mantissa) :
    Rounds spec sign (mantissa * 2 ^ exponent) (.round spec sign mantissa exponent) := by
  let target := spec.targetExponent (totalExponent mantissa exponent)
  let shift := (exponent - target).toNat
  have total : totalExponent (mantissa <<< shift) (exponent - shift) = totalExponent mantissa exponent := by
    unfold totalExponent
    rw [log2_shiftLeft positive]
    push_cast
    ring
  have fine : Fine spec (mantissa <<< shift) (exponent - shift) := by
    unfold Fine
    rw [total]
    omega
  have same : ((mantissa <<< shift : ℕ) : ℚ) * 2 ^ (exponent - shift) = mantissa * 2 ^ exponent := by
    rw [Nat.shiftLeft_eq, zpow_sub₀ two_ne_zero, zpow_natCast]
    push_cast
    field_simp
  rw [← same]
  exact roundWithAccuracy_rounds fine (encodes_exact _)

/-- Rounds a signed mantissa; what a zero becomes is left to the caller. -/
theorem normalize_roundsTo {spec : Format} {zeroSign : Sign} {mantissa : ℤ} {exponent : ℤ} :
    RoundsTo spec (mantissa * 2 ^ exponent) (.normalize spec mantissa exponent zeroSign) := by
  have scale : (0 : ℚ) < 2 ^ exponent := by positivity
  unfold UnpackedFloat.normalize
  rcases lt_trichotomy mantissa 0 with order | rfl | order
  · have cast : (((-mantissa).toNat : ℕ) : ℚ) = -mantissa := by
      exact_mod_cast Int.toNat_of_nonneg (by omega : 0 ≤ -mantissa)
    rw [Int.compare_eq_lt.mpr order]
    refine ⟨.negative, (-mantissa).toNat * 2 ^ exponent, by positivity, ?_, round_rounds (by omega)⟩
    rw [cast, signed]
    ring
  · refine ⟨zeroSign, 0, le_rfl, ?_, rounds_zero spec zeroSign⟩
    cases zeroSign <;> simp [signed]
  · have cast : ((mantissa.toNat : ℕ) : ℚ) = mantissa := by
      exact_mod_cast Int.toNat_of_nonneg order.le
    rw [Int.compare_eq_gt.mpr order]
    refine ⟨.positive, mantissa.toNat * 2 ^ exponent, by positivity, ?_, round_rounds (by omega)⟩
    rw [cast, signed]

/-- The quotient has enough digits for one rounding. -/
theorem divCore_rounds {spec : Format} {sign : Sign} {left right : ℕ} {leftExponent rightExponent : ℤ}
    (leftPositive : 0 < left) (rightPositive : 0 < right) :
    let (mantissa, exponent, accuracy) := divCore spec left leftExponent right rightExponent
    Rounds spec sign (left * 2 ^ leftExponent / (right * 2 ^ rightExponent))
      (roundWithAccuracy spec sign mantissa exponent accuracy) := by
  let target := min (leftExponent - rightExponent)
    (spec.targetExponent (totalExponent left leftExponent - totalExponent right rightExponent))
  let shift := (leftExponent - rightExponent - target).toNat
  have distance : (shift : ℤ) = leftExponent - rightExponent - target :=
    Int.toNat_of_nonneg (by have := min_le_left (leftExponent - rightExponent) (spec.targetExponent
      (totalExponent left leftExponent - totalExponent right rightExponent)); omega)
  have fine : Fine spec (left <<< shift / right) target := by
    by_cases least : target ≤ spec.minExponent
    · exact fine_of_le_minExponent least
    · apply fine_of_full
      have bits := two_le_mantissaBits spec
      have wide : right.log2 + spec.mantissaBits ≤ left.log2 + shift := by
        have := min_le_right (leftExponent - rightExponent) (spec.targetExponent
          (totalExponent left leftExponent - totalExponent right rightExponent))
        change target ≤ _ at this
        unfold Format.targetExponent totalExponent at this
        omega
      rw [Nat.le_div_iff_mul_le rightPositive, Nat.shiftLeft_eq]
      calc 2 ^ (spec.mantissaBits - 1) * right
        _ ≤ 2 ^ (spec.mantissaBits - 1) * 2 ^ (right.log2 + 1) := by gcongr; exact Nat.lt_log2_self.le
        _ = 2 ^ (right.log2 + spec.mantissaBits) := by
            rw [← pow_add]
            congr 1
            omega
        _ ≤ 2 ^ (left.log2 + shift) := Nat.pow_le_pow_right two_pos wide
        _ = 2 ^ left.log2 * 2 ^ shift := pow_add ..
        _ ≤ left * 2 ^ shift := by gcongr; exact Nat.log2_self_le leftPositive.ne'
  have rightNonzero : (right : ℚ) ≠ 0 := by exact_mod_cast rightPositive.ne'
  have quotient : ((left <<< shift / right : ℕ) : ℚ) + ((left <<< shift % right : ℕ) : ℚ) / right =
      left * 2 ^ shift / right := by
    have := Nat.div_add_mod (left <<< shift) right
    have : (right : ℚ) * (left <<< shift / right : ℕ) + (left <<< shift % right : ℕ) = left * 2 ^ shift := by
      rw [Nat.shiftLeft_eq] at this ⊢
      exact_mod_cast this
    field_simp
    linarith
  have same : (left : ℚ) * 2 ^ shift / right * 2 ^ target =
      left * 2 ^ leftExponent / (right * 2 ^ rightExponent) := by
    rw [← zpow_natCast, distance, zpow_sub₀ two_ne_zero, zpow_sub₀ two_ne_zero]
    field_simp
  change Rounds spec sign _ (roundWithAccuracy spec sign (left <<< shift / right) target _)
  rw [← same, ← quotient]
  exact roundWithAccuracy_rounds fine (encodes_fraction _ (Nat.mod_lt _ rightPositive))

section operations
variable {spec : Format} {left right : UnpackedFloat}

theorem signed_mul (leftSign rightSign : Sign) (first second : ℚ) :
    signed leftSign first * signed rightSign second = signed (leftSign * rightSign) (first * second) := by
  cases leftSign <;> cases rightSign
  case negative.negative => exact neg_mul_neg ..
  case negative.positive => exact neg_mul ..
  case positive.negative => exact mul_neg ..
  case positive.positive => rfl

theorem signed_div (leftSign rightSign : Sign) (first second : ℚ) :
    signed leftSign first / signed rightSign second = signed (leftSign / rightSign) (first / second) := by
  cases leftSign <;> cases rightSign
  case negative.negative => exact neg_div_neg_eq ..
  case negative.positive => exact neg_div ..
  case positive.negative => exact div_neg ..
  case positive.positive => rfl

theorem value_zero (sign : Sign) : value (.zero sign) = 0 := by
  cases sign <;> simp [value, magnitude, signed, Rounding.sign]

theorem roundsTo_zero (spec : Format) (sign : Sign) : RoundsTo spec 0 (.zero sign) :=
  ⟨sign, 0, le_rfl, by cases sign <;> simp [signed], rounds_zero spec sign⟩

theorem value_finite (sign : Sign) (mantissa : ℕ) (exponent : ℤ) (positive : 0 < mantissa) :
    value (.finite sign mantissa exponent positive) = (sign.apply mantissa : ℤ) * 2 ^ exponent := by
  cases sign <;> simp [value, magnitude, signed, Rounding.sign, Sign.apply]

/-- Moving a mantissa down to a smaller exponent keeps its value. -/
theorem apply_decreaseExponent (sign : Sign) (mantissa : ℕ) {exponent target : ℤ} (ordered : target ≤ exponent) :
    ((sign.apply (decreaseExponent mantissa exponent target).1 : ℤ) : ℚ) * 2 ^ target =
      (sign.apply mantissa : ℤ) * 2 ^ exponent := by
  have shifted : (((decreaseExponent mantissa exponent target).1 : ℕ) : ℚ) * 2 ^ target =
      mantissa * 2 ^ exponent := by
    have distance : (((exponent - target).toNat : ℕ) : ℤ) = exponent - target := Int.toNat_of_nonneg (by omega)
    simp only [decreaseExponent, Nat.shiftLeft_eq]
    push_cast
    rw [← zpow_natCast, distance, mul_assoc, ← zpow_add₀ two_ne_zero, Int.sub_add_cancel]
  cases sign <;> simp only [Sign.apply, Int.cast_neg, Int.cast_natCast, neg_mul, shifted]

theorem add_roundsTo (leftFinite : left.isFinite = true) (leftCanonical : Canonical spec left)
    (rightFinite : right.isFinite = true) (rightCanonical : Canonical spec right) :
    RoundsTo spec (value left + value right) (left.add spec right) := by
  cases left with
  | infinity => cases leftFinite
  | notANumber => cases leftFinite
  | zero leftSign =>
      rw [value_zero, zero_add]
      cases right with
      | infinity => cases rightFinite
      | notANumber => cases rightFinite
      | zero rightSign =>
          rw [value_zero]
          simp only [UnpackedFloat.add]
          split_ifs <;> exact roundsTo_zero ..
      | finite => exact rightCanonical.roundsTo rfl
  | finite leftSign leftMantissa leftExponent leftPositive =>
      cases right with
      | infinity => cases rightFinite
      | notANumber => cases rightFinite
      | zero rightSign =>
          rw [value_zero, add_zero]
          exact leftCanonical.roundsTo rfl
      | finite rightSign rightMantissa rightExponent rightPositive =>
          rw [value_finite, value_finite,
            ← apply_decreaseExponent leftSign leftMantissa (min_le_left leftExponent rightExponent),
            ← apply_decreaseExponent rightSign rightMantissa (min_le_right leftExponent rightExponent), ← add_mul]
          exact_mod_cast normalize_roundsTo

theorem sub_eq_add_opposite (spec : Format) (left right : UnpackedFloat) :
    left.sub spec right = left.add spec right.neg := by
  have apply_neg (sign : Sign) (mantissa : ℤ) : (-sign).apply mantissa = -sign.apply mantissa := by
    cases sign
    · exact (neg_neg mantissa).symm
    · rfl
  cases left with
  | finite leftSign leftMantissa leftExponent leftPositive =>
      cases right with
      | finite rightSign rightMantissa rightExponent rightPositive =>
          simp only [UnpackedFloat.sub, UnpackedFloat.add, UnpackedFloat.neg]
          rw [apply_neg, Int.sub_eq_add_neg]
      | infinity | notANumber | zero => rfl
  | infinity | notANumber | zero => cases right <;> rfl

theorem value_neg (unpacked : UnpackedFloat) : value unpacked.neg = -value unpacked := by
  have flipped (sign : Sign) (number : ℚ) : signed (-sign) number = -signed sign number := by
    cases sign
    · exact (neg_neg number).symm
    · rfl
  cases unpacked with
  | notANumber => simp [value, magnitude, signed, UnpackedFloat.neg, Rounding.sign]
  | infinity sign | zero sign | finite sign => exact flipped sign _

theorem Canonical.neg (canonical : Canonical spec left) : Canonical spec left.neg := by
  cases left <;> exact canonical

theorem isFinite_neg (unpacked : UnpackedFloat) : unpacked.neg.isFinite = unpacked.isFinite := by
  cases unpacked <;> rfl

theorem magnitude_neg (unpacked : UnpackedFloat) : magnitude unpacked.neg = magnitude unpacked := by
  cases unpacked <;> rfl

theorem Rounds.neg {sign : Sign} {number : ℚ} (rounds : Rounds spec sign number left) :
    Rounds spec (-sign) number left.neg := by
  obtain ⟨count, exponent, grid, nearest, rfl⟩ := rounds
  refine ⟨count, exponent, grid, nearest, ?_⟩
  unfold onGrid
  split_ifs <;> rfl

theorem sub_roundsTo (leftFinite : left.isFinite = true) (leftCanonical : Canonical spec left)
    (rightFinite : right.isFinite = true) (rightCanonical : Canonical spec right) :
    RoundsTo spec (value left - value right) (left.sub spec right) := by
  rw [sub_eq_add_opposite, sub_eq_add_neg, ← value_neg]
  exact add_roundsTo leftFinite leftCanonical (by rwa [isFinite_neg]) rightCanonical.neg

theorem mul_roundsTo (leftFinite : left.isFinite = true) (leftCanonical : Canonical spec left)
    (rightFinite : right.isFinite = true) (rightCanonical : Canonical spec right) :
    RoundsTo spec (value left * value right) (left.mul spec right) := by
  cases left with
  | infinity => cases leftFinite
  | notANumber => cases leftFinite
  | zero leftSign =>
      rw [value_zero, zero_mul]
      cases right with
      | infinity => cases rightFinite
      | notANumber => cases rightFinite
      | zero | finite => exact roundsTo_zero ..
  | finite leftSign leftMantissa leftExponent leftPositive =>
      cases right with
      | infinity => cases rightFinite
      | notANumber => cases rightFinite
      | zero rightSign =>
          rw [value_zero, mul_zero]
          exact roundsTo_zero ..
      | finite rightSign rightMantissa rightExponent rightPositive =>
          have product : (leftMantissa * 2 ^ leftExponent * (rightMantissa * 2 ^ rightExponent) : ℚ) =
              (leftMantissa * rightMantissa : ℕ) * 2 ^ (leftExponent + rightExponent) := by
            rw [zpow_add₀ two_ne_zero]
            push_cast
            ring
          have fine : Fine spec (leftMantissa * rightMantissa) (leftExponent + rightExponent) := by
            have nonpos := minExponent_nonpos spec
            rcases (grid_count_iff.mp leftCanonical).2.2 with leftLeast | leftFull
            · rcases (grid_count_iff.mp rightCanonical).2.2 with rightLeast | rightFull
              · exact fine_of_le_minExponent (by omega)
              · exact fine_of_full (rightFull.trans (Nat.le_mul_of_pos_left _ leftPositive))
            · exact fine_of_full (leftFull.trans (Nat.le_mul_of_pos_right _ rightPositive))
          refine ⟨leftSign * rightSign, _, mul_nonneg (magnitude_nonneg _) (magnitude_nonneg _), signed_mul .., ?_⟩
          simp only [magnitude]
          rw [product]
          exact roundWithAccuracy_rounds fine (encodes_exact _)

theorem div_rounds (leftFinite : left.isFinite = true) (rightFinite : right.isFinite = true)
    (nonzero : magnitude right ≠ 0) :
    Rounds spec (Rounding.sign left / Rounding.sign right) (magnitude left / magnitude right)
      (left.div spec right) := by
  cases right with
  | infinity | notANumber => cases rightFinite
  | zero sign => exact absurd rfl nonzero
  | finite rightSign rightMantissa rightExponent rightPositive =>
      cases left with
      | infinity | notANumber => cases leftFinite
      | zero leftSign =>
          rw [show magnitude (.zero leftSign) = 0 from rfl, zero_div]
          exact rounds_zero ..
      | finite leftSign leftMantissa leftExponent leftPositive => exact divCore_rounds leftPositive rightPositive

theorem div_roundsTo (leftFinite : left.isFinite = true) (rightFinite : right.isFinite = true)
    (nonzero : value right ≠ 0) : RoundsTo spec (value left / value right) (left.div spec right) := by
  refine ⟨_, _, div_nonneg (magnitude_nonneg _) (magnitude_nonneg _), signed_div ..,
    div_rounds leftFinite rightFinite ?_⟩
  rwa [← abs_value, abs_ne_zero]

/-- A natural number is rounded once. -/
theorem ofNat_rounds (spec : Format) (count : ℕ) : Rounds spec .positive count (.ofNat spec count) := by
  unfold UnpackedFloat.ofNat UnpackedFloat.ofInt UnpackedFloat.normalize
  rcases Nat.eq_zero_or_pos count with rfl | positive
  · exact_mod_cast rounds_zero spec .positive
  · rw [Int.compare_eq_gt.mpr (by exact_mod_cast positive)]
    have rounds : Rounds spec .positive (count * 2 ^ (0 : ℤ)) (.round spec .positive count 0) := round_rounds positive
    rwa [zpow_zero, mul_one] at rounds

end operations

end EpisodicReplay.Rounding
