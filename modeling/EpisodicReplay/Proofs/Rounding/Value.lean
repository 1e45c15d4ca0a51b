import EpisodicReplay.Proofs.Rounding.Grid

/-! The rational that an unpacked number stands for, and rounding as a function of rationals. -/

namespace EpisodicReplay.Rounding
open Float.Model (Format UnpackedFloat totalExponent)
open Float.Model.UnpackedFloat (Sign)

def signed : Sign → ℚ → ℚ
  | .negative, magnitude => -magnitude
  | .positive, magnitude => magnitude

/-- The absolute value; a number that is not finite has none and counts as zero. -/
def magnitude : UnpackedFloat → ℚ
  | .finite _ mantissa exponent _ => mantissa * 2 ^ exponent
  | _ => 0

def sign : UnpackedFloat → Sign
  | .finite sign _ _ _ | .zero sign | .infinity sign => sign
  | .notANumber => .positive

/-- The rational value; a number that is not finite counts as zero. -/
def value (unpacked : UnpackedFloat) : ℚ :=
  signed (sign unpacked) (magnitude unpacked)

/-- A number that is finite is written on the grid of its own magnitude. -/
def Canonical (spec : Format) : UnpackedFloat → Prop
  | .finite _ mantissa exponent _ => Grid spec (mantissa * 2 ^ exponent) exponent
  | _ => True

/-- An unpacked number is the nearest one to a rational, ties to even. Both zeros are nearest to zero. -/
def RoundsTo (spec : Format) (number : ℚ) (unpacked : UnpackedFloat) : Prop :=
  ∃ sign magnitude, 0 ≤ magnitude ∧ number = signed sign magnitude ∧ Rounds spec sign magnitude unpacked

theorem magnitude_zero (sign : Sign) : magnitude (.zero sign) = 0 := rfl

theorem magnitude_finite (sign : Sign) (mantissa : ℕ) (exponent : ℤ) (positive : 0 < mantissa) :
    magnitude (.finite sign mantissa exponent positive) = mantissa * 2 ^ exponent := rfl

theorem magnitude_nonneg (unpacked : UnpackedFloat) : 0 ≤ magnitude unpacked := by
  unfold magnitude
  split <;> positivity

theorem abs_signed (sign : Sign) (number : ℚ) : |signed sign number| = |number| := by
  cases sign <;> simp [signed]

theorem abs_signed_sub (sign : Sign) (first second : ℚ) :
    |signed sign first - signed sign second| = |first - second| := by
  cases sign
  · exact (congrArg abs (by simp only [signed]; ring)).trans (abs_sub_comm second first)
  · rfl

theorem abs_value (unpacked : UnpackedFloat) : |value unpacked| = magnitude unpacked := by
  rw [value, abs_signed, abs_of_nonneg (magnitude_nonneg unpacked)]

section grid
variable {spec : Format} {number : ℚ} {exponent : ℤ} {count : ℕ}

theorem two_pow_mantissaBits (spec : Format) :
    (2 : ℚ) ^ spec.mantissaBits = 2 ^ (spec.mantissaBits - 1) * 2 := by
  rw [← pow_succ]
  congr 1
  have := two_le_mantissaBits spec
  omega

theorem zpow_add_mantissaBits_sub_one (spec : Format) (exponent : ℤ) :
    (2 : ℚ) ^ (exponent + spec.mantissaBits - 1) = 2 ^ (spec.mantissaBits - 1) * 2 ^ exponent := by
  rw [← zpow_natCast, ← zpow_add₀ two_ne_zero]
  congr 1
  have := two_le_mantissaBits spec
  omega

theorem zpow_add_mantissaBits (spec : Format) (exponent : ℤ) :
    (2 : ℚ) ^ (exponent + spec.mantissaBits) = 2 ^ spec.mantissaBits * 2 ^ exponent := by
  rw [zpow_add₀ two_ne_zero, mul_comm, zpow_natCast]

/-- The grid of a count in mantissa form. -/
theorem grid_count_iff : Grid spec (count * 2 ^ exponent) exponent ↔
    spec.minExponent ≤ exponent ∧ count < 2 ^ spec.mantissaBits ∧
      (exponent = spec.minExponent ∨ 2 ^ (spec.mantissaBits - 1) ≤ count) := by
  have scale : (0 : ℚ) < 2 ^ exponent := by positivity
  have belowIff : (count : ℚ) * 2 ^ exponent < 2 ^ (exponent + spec.mantissaBits) ↔
      count < 2 ^ spec.mantissaBits := by
    rw [zpow_add_mantissaBits, mul_lt_mul_iff_left₀ scale]
    exact_mod_cast Iff.rfl
  have tightIff : (2 : ℚ) ^ (exponent + spec.mantissaBits - 1) ≤ count * 2 ^ exponent ↔
      2 ^ (spec.mantissaBits - 1) ≤ count := by
    rw [zpow_add_mantissaBits_sub_one, mul_le_mul_iff_left₀ scale]
    exact_mod_cast Iff.rfl
  constructor
  · rintro ⟨least, below, tight⟩
    exact ⟨least, belowIff.mp below, tight.imp_right tightIff.mp⟩
  · rintro ⟨least, below, tight⟩
    exact ⟨least, belowIff.mpr below, tight.imp_right tightIff.mpr⟩

/-- The count nearest to a magnitude on its grid is full up to rounding to a power of two. -/
theorem Grid.count_bounds (grid : Grid spec number exponent) (nearest : Nearest count (number / 2 ^ exponent)) :
    count ≤ 2 ^ spec.mantissaBits ∧ (exponent = spec.minExponent ∨ 2 ^ (spec.mantissaBits - 1) ≤ count) := by
  have scale : (0 : ℚ) < 2 ^ exponent := by positivity
  constructor
  · apply nearest.le_of_le
    have := grid.below
    rw [zpow_add_mantissaBits] at this
    rw [div_le_iff₀ scale]
    exact_mod_cast this.le
  · refine grid.tight.imp_right fun tight => nearest.le_of_ge ?_
    rw [zpow_add_mantissaBits_sub_one] at tight
    rw [le_div_iff₀ scale]
    exact_mod_cast tight

end grid

@[simp]
theorem sign_onGrid (spec : Format) (wanted : Sign) (count : ℕ) (exponent : ℤ) :
    sign (onGrid spec wanted count exponent) = wanted := by
  unfold onGrid
  split_ifs <;> rfl

theorem magnitude_onGrid {spec : Format} {wanted : Sign} {count : ℕ} {exponent : ℤ}
    (fits : count ≤ 2 ^ spec.mantissaBits) : magnitude (onGrid spec wanted count exponent) = count * 2 ^ exponent := by
  unfold onGrid
  split_ifs with positive less
  · rfl
  · obtain rfl : count = 2 ^ spec.mantissaBits := by omega
    simp only [magnitude]
    push_cast
    rw [two_pow_mantissaBits, zpow_add_one₀ two_ne_zero]
    ring
  · obtain rfl : count = 0 := by omega
    simp [magnitude]

theorem Rounds.sign_eq {spec : Format} {wanted : Sign} {number : ℚ} {unpacked : UnpackedFloat}
    (rounds : Rounds spec wanted number unpacked) : sign unpacked = wanted := by
  obtain ⟨count, exponent, -, -, rfl⟩ := rounds
  exact sign_onGrid ..

/-- The result of rounding is a count on the grid of the rounded magnitude. -/
theorem Rounds.magnitude_eq {spec : Format} {wanted : Sign} {number : ℚ} {unpacked : UnpackedFloat}
    (rounds : Rounds spec wanted number unpacked) :
    ∃ count exponent, Grid spec number exponent ∧ Nearest count (number / 2 ^ exponent) ∧
      magnitude unpacked = count * 2 ^ exponent := by
  obtain ⟨count, exponent, grid, nearest, rfl⟩ := rounds
  exact ⟨count, exponent, grid, nearest, magnitude_onGrid (grid.count_bounds nearest).1⟩

theorem Rounds.isFinite {spec : Format} {wanted : Sign} {number : ℚ} {unpacked : UnpackedFloat}
    (rounds : Rounds spec wanted number unpacked) : unpacked.isFinite = true := by
  obtain ⟨count, exponent, -, -, rfl⟩ := rounds
  unfold onGrid
  split_ifs <;> rfl

theorem Rounds.canonical {spec : Format} {wanted : Sign} {number : ℚ} {unpacked : UnpackedFloat}
    (rounds : Rounds spec wanted number unpacked) : Canonical spec unpacked := by
  obtain ⟨count, exponent, grid, nearest, rfl⟩ := rounds
  have ⟨fits, tight⟩ := grid.count_bounds nearest
  unfold onGrid
  split_ifs with positive less
  · exact grid_count_iff.mpr ⟨grid.least, less, tight⟩
  · refine grid_count_iff.mpr ⟨grid.least.trans (by omega), ?_, .inr le_rfl⟩
    exact Nat.pow_lt_pow_right (by norm_num) (by have := two_le_mantissaBits spec; omega)
  · trivial

theorem minExponent_nonpos (spec : Format) : spec.minExponent ≤ 0 := by
  have bits := two_le_mantissaBits spec
  have : (1 : ℤ) ≤ 2 ^ (spec.exponentBits - 1) := by exact_mod_cast Nat.one_le_two_pow
  unfold Format.minExponent
  omega

theorem rounds_zero (spec : Format) (sign : Sign) : Rounds spec sign 0 (.zero sign) := by
  refine ⟨0, spec.minExponent, ⟨le_rfl, by positivity, .inl rfl⟩, ?_, rfl⟩
  rw [zero_div]
  exact_mod_cast nearest_natCast 0

/-- A canonical number is the rounding of its own magnitude. -/
theorem Canonical.rounds {spec : Format} {unpacked : UnpackedFloat} (canonical : Canonical spec unpacked)
    (finite : unpacked.isFinite = true) : Rounds spec (sign unpacked) (magnitude unpacked) unpacked := by
  cases unpacked with
  | infinity => cases finite
  | notANumber => cases finite
  | zero sign => exact rounds_zero spec sign
  | finite sign mantissa exponent positive =>
      have fits := (grid_count_iff.mp canonical).2.1
      refine ⟨mantissa, exponent, canonical, ?_, by simp [onGrid, positive, fits, Rounding.sign]⟩
      rw [magnitude, mul_div_cancel_right₀ _ (by positivity)]
      exact nearest_natCast mantissa

theorem Canonical.roundsTo {spec : Format} {unpacked : UnpackedFloat} (canonical : Canonical spec unpacked)
    (finite : unpacked.isFinite = true) : RoundsTo spec (value unpacked) unpacked :=
  ⟨_, _, magnitude_nonneg unpacked, rfl, canonical.rounds finite⟩

/-- A count on a grid that is fine enough rounds to itself. -/
theorem Rounds.magnitude_eq_of_count {spec : Format} {wanted : Sign} {count : ℕ} {exponent : ℤ}
    {unpacked : UnpackedFloat} (rounds : Rounds spec wanted (count * 2 ^ exponent) unpacked)
    (least : spec.minExponent ≤ exponent) (fits : count < 2 ^ spec.mantissaBits) :
    magnitude unpacked = count * 2 ^ exponent := by
  obtain ⟨rounded, place, grid, nearest, equal⟩ := rounds.magnitude_eq
  have ordered : place ≤ exponent := by
    rcases grid.tight with bottom | tight
    · exact bottom ▸ least
    · have below : (count : ℚ) * 2 ^ exponent < 2 ^ (exponent + spec.mantissaBits) := by
        rw [zpow_add_mantissaBits]
        gcongr
        exact_mod_cast fits
      have := (zpow_lt_zpow_iff_right₀ (by norm_num : (1 : ℚ) < 2)).mp (tight.trans_lt below)
      omega
  obtain ⟨shift, rfl⟩ : ∃ shift : ℕ, exponent = place + shift := ⟨(exponent - place).toNat, by omega⟩
  have whole : (count : ℚ) * 2 ^ (place + (shift : ℤ)) / 2 ^ place = ((count * 2 ^ shift : ℕ) : ℚ) := by
    rw [zpow_add₀ two_ne_zero, zpow_natCast]
    push_cast
    field_simp
  rw [whole] at nearest
  rw [equal, nearest.unique (nearest_natCast _), zpow_add₀ two_ne_zero, zpow_natCast]
  push_cast
  ring

/-- Rounding moves a magnitude by at most half a step of its grid. -/
theorem Rounds.error_le {spec : Format} {wanted : Sign} {number : ℚ} {unpacked : UnpackedFloat} {place : ℤ}
    (rounds : Rounds spec wanted number unpacked) (least : spec.minExponent ≤ place)
    (below : number < 2 ^ (place + spec.mantissaBits)) : |magnitude unpacked - number| ≤ 2 ^ (place - 1) := by
  obtain ⟨count, exponent, grid, nearest, equal⟩ := rounds.magnitude_eq
  have ordered : exponent ≤ place := by
    rcases grid.tight with bottom | tight
    · exact bottom ▸ least
    · have := (zpow_lt_zpow_iff_right₀ (by norm_num : (1 : ℚ) < 2)).mp (tight.trans_lt below)
      omega
  have scale : (0 : ℚ) < 2 ^ exponent := by positivity
  have scaled : magnitude unpacked - number = -(number / 2 ^ exponent - count) * 2 ^ exponent := by
    rw [equal]
    field_simp
    ring
  calc |magnitude unpacked - number|
    _ = |number / 2 ^ exponent - count| * 2 ^ exponent := by rw [scaled, abs_mul, abs_neg, abs_of_pos scale]
    _ ≤ 1 / 2 * 2 ^ exponent := by gcongr; exact nearest.close
    _ = (2 : ℚ) ^ (exponent - 1) := by
        rw [zpow_sub_one₀ two_ne_zero]
        ring
    _ ≤ 2 ^ (place - 1) := zpow_le_zpow_right₀ (by norm_num) (by omega)

section mono
variable {spec : Format} {lowSign highSign : Sign} {low high : ℚ} {lower upper : UnpackedFloat}

theorem Grid.mono {lowExponent highExponent : ℤ} (lowGrid : Grid spec low lowExponent)
    (highGrid : Grid spec high highExponent) (ordered : low ≤ high) : lowExponent ≤ highExponent := by
  rcases lowGrid.tight with least | tight
  · exact least ▸ highGrid.least
  · have := (zpow_lt_zpow_iff_right₀ (by norm_num : (1 : ℚ) < 2)).mp
      ((tight.trans ordered).trans_lt highGrid.below)
    omega

/-- Rounding keeps the order of magnitudes. -/
theorem Rounds.mono (lowRounds : Rounds spec lowSign low lower) (highRounds : Rounds spec highSign high upper)
    (ordered : low ≤ high) : magnitude lower ≤ magnitude upper := by
  obtain ⟨lowCount, lowExponent, lowGrid, lowNearest, lowEq⟩ := lowRounds.magnitude_eq
  obtain ⟨highCount, highExponent, highGrid, highNearest, highEq⟩ := highRounds.magnitude_eq
  rw [lowEq, highEq]
  rcases (lowGrid.mono highGrid ordered).lt_or_eq with less | rfl
  · have lowFits : (lowCount : ℚ) ≤ 2 ^ spec.mantissaBits := by
      exact_mod_cast (lowGrid.count_bounds lowNearest).1
    have highFull : (2 : ℚ) ^ (spec.mantissaBits - 1) ≤ highCount := by
      have := lowGrid.least
      exact_mod_cast (highGrid.count_bounds highNearest).2.resolve_left (by omega)
    calc (lowCount : ℚ) * 2 ^ lowExponent
      _ ≤ 2 ^ spec.mantissaBits * 2 ^ lowExponent := by gcongr
      _ = (2 : ℚ) ^ (lowExponent + spec.mantissaBits) := (zpow_add_mantissaBits ..).symm
      _ ≤ 2 ^ (highExponent + spec.mantissaBits - 1) := zpow_le_zpow_right₀ (by norm_num) (by omega)
      _ = 2 ^ (spec.mantissaBits - 1) * 2 ^ highExponent := zpow_add_mantissaBits_sub_one ..
      _ ≤ highCount * 2 ^ highExponent := by gcongr
  · have : (lowCount : ℚ) ≤ highCount := by
      exact_mod_cast lowNearest.mono highNearest (by gcongr)
    gcongr

end mono

namespace RoundsTo
variable {spec : Format} {low high number : ℚ} {lower upper unpacked : UnpackedFloat}

theorem isFinite (rounds : RoundsTo spec number unpacked) : unpacked.isFinite = true := by
  obtain ⟨_, _, -, -, rounds⟩ := rounds
  exact rounds.isFinite

theorem canonical (rounds : RoundsTo spec number unpacked) : Canonical spec unpacked := by
  obtain ⟨_, _, -, -, rounds⟩ := rounds
  exact rounds.canonical

/-- Rounding keeps the order. -/
theorem mono (lowRounds : RoundsTo spec low lower) (highRounds : RoundsTo spec high upper) (ordered : low ≤ high) :
    value lower ≤ value upper := by
  obtain ⟨lowSign, lowMagnitude, lowNonneg, rfl, lowRounds⟩ := lowRounds
  obtain ⟨highSign, highMagnitude, highNonneg, rfl, highRounds⟩ := highRounds
  have lowerNonneg := magnitude_nonneg lower
  have upperNonneg := magnitude_nonneg upper
  unfold value
  rw [lowRounds.sign_eq, highRounds.sign_eq]
  cases lowSign <;> cases highSign <;> simp only [signed] at ordered ⊢
  case negative.negative =>
    have := highRounds.mono lowRounds (by linarith)
    linarith
  case negative.positive => linarith
  case positive.negative =>
    -- Both magnitudes are zero, and zero rounds to zero.
    have lowLe := lowRounds.mono (rounds_zero spec .positive) (by linarith)
    have highLe := highRounds.mono (rounds_zero spec .positive) (by linarith)
    simp only [magnitude] at lowLe highLe lowerNonneg upperNonneg ⊢
    linarith
  case positive.positive => exact lowRounds.mono highRounds ordered

/-- A power of two bounds a result as soon as it bounds the exact number. -/
theorem magnitude_le {place : ℤ} (rounds : RoundsTo spec number unpacked)
    (normal : spec.minExponent + (spec.mantissaBits - 1 : ℕ) ≤ place) (bound : |number| ≤ 2 ^ place) :
    magnitude unpacked ≤ 2 ^ place := by
  obtain ⟨sign, absolute, nonneg, rfl, rounds⟩ := rounds
  rw [abs_signed, abs_of_nonneg nonneg] at bound
  let power : UnpackedFloat :=
    .finite sign (2 ^ (spec.mantissaBits - 1)) (place - (spec.mantissaBits - 1 : ℕ)) (Nat.two_pow_pos _)
  have powerEq : magnitude power = 2 ^ place := by
    simp only [power, magnitude]
    push_cast
    rw [← zpow_natCast, ← zpow_add₀ two_ne_zero]
    congr 1
    omega
  have canonical : Canonical spec power := by
    refine grid_count_iff.mpr ⟨by omega, ?_, .inr le_rfl⟩
    exact Nat.pow_lt_pow_right (by norm_num) (by have := two_le_mantissaBits spec; omega)
  rw [← powerEq] at bound ⊢
  exact rounds.mono (canonical.rounds rfl) bound

/-- A power of two bounds a result even if the exact number is above it, by less than half a step of the grid. -/
theorem magnitude_le_of_near {place : ℤ} (rounds : RoundsTo spec number unpacked)
    (normal : spec.minExponent + (spec.mantissaBits - 1 : ℕ) ≤ place)
    (near : |number| < 2 ^ place + 2 ^ (place - spec.mantissaBits)) : magnitude unpacked ≤ 2 ^ place := by
  rcases le_or_gt |number| (2 ^ place) with below | above
  · exact rounds.magnitude_le normal below
  obtain ⟨sign, absolute, nonneg, rfl, rounds⟩ := rounds
  rw [abs_signed, abs_of_nonneg nonneg] at near above
  have bits := two_le_mantissaBits spec
  have step : (0 : ℚ) < 2 ^ (place + 1 - spec.mantissaBits) := by positivity
  have whole : (2 : ℚ) ^ place = 2 ^ (spec.mantissaBits - 1) * 2 ^ (place + 1 - spec.mantissaBits) := by
    rw [← zpow_natCast, ← zpow_add₀ two_ne_zero]
    congr 1
    omega
  have half : (2 : ℚ) ^ (place - spec.mantissaBits) = 2 ^ (place + 1 - spec.mantissaBits) / 2 := by
    rw [div_eq_mul_inv, ← zpow_sub_one₀ two_ne_zero]
    congr 1
    omega
  have grid : Grid spec absolute (place + 1 - spec.mantissaBits) := by
    refine ⟨by omega, ?_, .inr ?_⟩
    · have small : (2 : ℚ) ^ (place - spec.mantissaBits) ≤ 2 ^ place :=
        zpow_le_zpow_right₀ (by norm_num) (by omega)
      have double : (2 : ℚ) ^ (place + 1 - spec.mantissaBits + spec.mantissaBits) = 2 ^ place * 2 := by
        rw [← zpow_add_one₀ two_ne_zero]
        congr 1
        omega
      linarith
    · rw [show place + 1 - spec.mantissaBits + spec.mantissaBits - 1 = place by omega]
      exact above.le
  obtain ⟨count, exponent, own, nearest, equal⟩ := rounds.magnitude_eq
  obtain rfl := own.unique grid
  have fewer : count ≤ 2 ^ (spec.mantissaBits - 1) := by
    have quotient : absolute / 2 ^ (place + 1 - spec.mantissaBits) < 2 ^ (spec.mantissaBits - 1) + 1 / 2 := by
      rw [div_lt_iff₀ step]
      linarith
    have upper := nearest.upper
    have less : (count : ℚ) < 2 ^ (spec.mantissaBits - 1) + 1 := by linarith
    exact Nat.lt_succ_iff.mp (by exact_mod_cast less)
  rw [equal, whole]
  gcongr
  exact_mod_cast fewer

/-- A count on a grid that is fine enough is not moved. -/
theorem value_eq_of_count {count : ℕ} {exponent : ℤ} (rounds : RoundsTo spec number unpacked)
    (written : |number| = count * 2 ^ exponent) (least : spec.minExponent ≤ exponent)
    (fits : count < 2 ^ spec.mantissaBits) : value unpacked = number := by
  obtain ⟨sign, absolute, nonneg, rfl, rounds⟩ := rounds
  rw [abs_signed, abs_of_nonneg nonneg] at written
  subst written
  rw [value, rounds.sign_eq, rounds.magnitude_eq_of_count least fits]

end RoundsTo

end EpisodicReplay.Rounding
