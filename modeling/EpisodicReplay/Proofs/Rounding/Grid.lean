import EpisodicReplay.Proofs.Rounding.Mantissa

/-! The numbers of a format as counts on a grid, and the one number that a magnitude rounds to. -/

namespace EpisodicReplay.Rounding
open Float.Model (Format UnpackedFloat totalExponent)
open Float.Model.UnpackedFloat (Accuracy ExtendedMantissa Sign shiftToExponent shiftToTargetExponent roundWithAccuracy)

/-- A format keeps the digits of a magnitude down to the place `exponent`. -/
structure Grid (spec : Format) (magnitude : ℚ) (exponent : ℤ) : Prop where
  least : spec.minExponent ≤ exponent
  below : magnitude < 2 ^ (exponent + spec.mantissaBits)
  tight : exponent = spec.minExponent ∨ (2 : ℚ) ^ (exponent + spec.mantissaBits - 1) ≤ magnitude

/-- The unpacked number `count * 2 ^ exponent`. A count that has one bit too many is a power of two. -/
def onGrid (spec : Format) (sign : Sign) (count : ℕ) (exponent : ℤ) : UnpackedFloat :=
  if positive : 0 < count then
    if count < 2 ^ spec.mantissaBits then .finite sign count exponent positive
    else .finite sign (2 ^ (spec.mantissaBits - 1)) (exponent + 1) (Nat.two_pow_pos _)
  else .zero sign

/-- An unpacked number is the nearest one to a magnitude, ties to even. -/
def Rounds (spec : Format) (sign : Sign) (magnitude : ℚ) (unpacked : UnpackedFloat) : Prop :=
  ∃ count exponent, Grid spec magnitude exponent ∧ Nearest count (magnitude / 2 ^ exponent) ∧
    unpacked = onGrid spec sign count exponent

theorem Grid.unique {spec : Format} {magnitude : ℚ} {first second : ℤ} (firstGrid : Grid spec magnitude first)
    (secondGrid : Grid spec magnitude second) : first = second := by
  have ordered {low high : ℤ} (lowGrid : Grid spec magnitude low) (highGrid : Grid spec magnitude high) :
      high ≤ low := by
    rcases highGrid.tight with least | tight
    · exact least ▸ lowGrid.least
    · have := (zpow_lt_zpow_iff_right₀ (by norm_num : (1 : ℚ) < 2)).mp (tight.trans_lt lowGrid.below)
      omega
  exact le_antisymm (ordered secondGrid firstGrid) (ordered firstGrid secondGrid)

/-- A magnitude rounds to one number. -/
theorem Rounds.unique {spec : Format} {sign : Sign} {magnitude : ℚ} {first second : UnpackedFloat}
    (firstRounds : Rounds spec sign magnitude first) (secondRounds : Rounds spec sign magnitude second) :
    first = second := by
  obtain ⟨firstCount, firstExponent, firstGrid, firstNearest, rfl⟩ := firstRounds
  obtain ⟨secondCount, secondExponent, secondGrid, secondNearest, rfl⟩ := secondRounds
  obtain rfl := firstGrid.unique secondGrid
  rw [firstNearest.unique secondNearest]

section shift
variable {spec : Format} {mantissa : ℕ} {exponent : ℤ} {number : ℚ}

/-- The mantissa has a digit at or below the last place that the format keeps. -/
def Fine (spec : Format) (mantissa : ℕ) (exponent : ℤ) : Prop :=
  exponent ≤ spec.targetExponent (totalExponent mantissa exponent)

theorem two_le_mantissaBits (spec : Format) : 2 ≤ spec.mantissaBits := by
  have := spec.hm
  unfold Format.mantissaBits
  omega

/-- The target exponent of a mantissa is the grid of every number that starts with it. -/
theorem grid_of_fine (fine : Fine spec mantissa exponent) (lower : (mantissa : ℚ) ≤ number)
    (upper : number < mantissa + 1) :
    Grid spec (number * 2 ^ exponent) (spec.targetExponent (totalExponent mantissa exponent)) := by
  have scale : (0 : ℚ) < 2 ^ exponent := by positivity
  have bits := two_le_mantissaBits spec
  unfold Fine Format.targetExponent totalExponent at *
  refine ⟨le_max_right _ _, ?_, ?_⟩
  · have whole : (mantissa : ℚ) + 1 ≤ 2 ^ (mantissa.log2 + 1) := by exact_mod_cast Nat.lt_log2_self
    calc number * 2 ^ exponent
      _ < 2 ^ (mantissa.log2 + 1) * 2 ^ exponent := by gcongr; linarith
      _ = (2 : ℚ) ^ ((mantissa.log2 : ℤ) + 1 + exponent) := by
          rw [← zpow_natCast, ← zpow_add₀ two_ne_zero]
          push_cast
          rfl
      _ ≤ _ := zpow_le_zpow_right₀ (by norm_num) (by omega)
  · by_cases zero : mantissa = 0
    · left
      subst zero
      rw [Nat.log2_zero] at fine ⊢
      omega
    · rcases le_total ((mantissa.log2 : ℤ) + 1 + exponent - spec.mantissaBits) spec.minExponent with small | large
      · exact .inl (max_eq_right small)
      · right
        have leading : (2 : ℚ) ^ mantissa.log2 ≤ mantissa := by exact_mod_cast Nat.log2_self_le zero
        rw [max_eq_left large]
        calc (2 : ℚ) ^ ((mantissa.log2 : ℤ) + 1 + exponent - spec.mantissaBits + spec.mantissaBits - 1)
          _ = 2 ^ mantissa.log2 * 2 ^ exponent := by
              rw [← zpow_natCast, ← zpow_add₀ two_ne_zero]
              congr 1
              ring
          _ ≤ number * 2 ^ exponent := by gcongr; linarith

/-- A count that fits stays where it is. -/
theorem shiftToTargetExponent_of_lt {count : ℕ} (least : spec.minExponent ≤ exponent)
    (fits : count < 2 ^ spec.mantissaBits) :
    shiftToTargetExponent spec count exponent .exact = (⟨count, false, false⟩, exponent) := by
  have bits := two_le_mantissaBits spec
  have width : count.log2 < spec.mantissaBits := by
    by_cases zero : count = 0
    · rw [zero, Nat.log2_zero]
      omega
    · exact (Nat.log2_lt zero).mpr fits
  have still : (spec.targetExponent (totalExponent count exponent) - exponent).toNat = 0 := by
    unfold Format.targetExponent totalExponent
    omega
  simp only [shiftToTargetExponent, shiftToExponent, still]
  exact congrArg (Prod.mk _) (Int.add_zero exponent)

/-- A count with one bit too many loses it and goes up one place. -/
theorem shiftToTargetExponent_two_pow (least : spec.minExponent ≤ exponent) :
    shiftToTargetExponent spec (2 ^ spec.mantissaBits) exponent .exact =
      (⟨2 ^ (spec.mantissaBits - 1), false, false⟩, exponent + 1) := by
  have bits := two_le_mantissaBits spec
  have one : (spec.targetExponent (totalExponent (2 ^ spec.mantissaBits) exponent) - exponent).toNat = 1 := by
    unfold Format.targetExponent totalExponent
    rw [Nat.log2_two_pow]
    omega
  have double : 2 ^ spec.mantissaBits = 2 ^ (spec.mantissaBits - 1) * 2 := by
    rw [← pow_succ]
    congr 1
    omega
  simp only [shiftToTargetExponent, shiftToExponent, one, Nat.cast_one]
  change (ExtendedMantissa.shiftRightOne ⟨2 ^ spec.mantissaBits, false, false⟩, exponent + 1) = _
  simp only [ExtendedMantissa.shiftRightOne, Bool.or_false, Prod.mk.injEq, and_true, ExtendedMantissa.mk.injEq]
  rw [double, Nat.mul_mod_left, Nat.mul_div_cancel _ two_pos]
  exact ⟨rfl, rfl⟩

end shift

/-- Rounding a mantissa with its residual bits gives the number nearest to what they encode. -/
theorem roundWithAccuracy_rounds {spec : Format} {sign : Sign} {mantissa : ℕ} {exponent : ℤ} {accuracy : Accuracy}
    {number : ℚ} (fine : Fine spec mantissa exponent)
    (encodes : Encodes (.ofMantissaAndAccuracy mantissa accuracy) number) :
    Rounds spec sign (number * 2 ^ exponent) (roundWithAccuracy spec sign mantissa exponent accuracy) := by
  have start : (ExtendedMantissa.ofMantissaAndAccuracy mantissa accuracy).mantissa = mantissa := by
    rcases accuracy with _ | ⟨_ | _ | _⟩ <;> rfl
  have grid := grid_of_fine fine (start ▸ encodes.lower) (start ▸ encodes.upper)
  let target := spec.targetExponent (totalExponent mantissa exponent)
  let count := (ExtendedMantissa.ofMantissaAndAccuracy mantissa accuracy >>> (target - exponent).toNat).roundedMantissa
  have distance : ((target - exponent).toNat : ℤ) = target - exponent :=
    Int.toNat_of_nonneg (by unfold Fine at fine; omega)
  have rescaled : number * 2 ^ exponent / 2 ^ target = number / 2 ^ (target - exponent).toNat := by
    rw [← zpow_natCast, distance, zpow_sub₀ two_ne_zero]
    field_simp
  have nearest : Nearest count (number * 2 ^ exponent / 2 ^ target) := rescaled ▸ (encodes.shiftRight _).nearest
  have fits : count ≤ 2 ^ spec.mantissaBits := by
    apply nearest.le_of_le
    have := grid.below
    rw [zpow_add₀ two_ne_zero] at this
    rw [div_le_iff₀ (by positivity)]
    push_cast
    rw [mul_comm ((2 : ℚ) ^ spec.mantissaBits)]
    exact_mod_cast this.le
  refine ⟨count, target, grid, nearest, ?_⟩
  have first : shiftToTargetExponent spec mantissa exponent accuracy =
      (ExtendedMantissa.ofMantissaAndAccuracy mantissa accuracy >>> (target - exponent).toNat, target) := by
    simp only [shiftToTargetExponent, shiftToExponent]
    exact congrArg (Prod.mk _) (by rw [distance]; ring)
  unfold roundWithAccuracy onGrid
  rw [first]
  change (let (extended, place) := shiftToTargetExponent spec count target .exact
    if isZero : extended.mantissa = 0 then UnpackedFloat.zero sign
    else .finite sign extended.mantissa place (Nat.pos_of_ne_zero isZero)) = _
  rcases fits.lt_or_eq with less | equal
  · rw [shiftToTargetExponent_of_lt grid.least less]
    by_cases zero : count = 0
    · simp [zero]
    · simp [zero, Nat.pos_of_ne_zero zero, less, target]
  · rw [equal, shiftToTargetExponent_two_pow grid.least]
    simp [target]

end EpisodicReplay.Rounding
