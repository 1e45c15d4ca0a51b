import EpisodicReplay.Binary32
import EpisodicReplay.Proofs.Rounding.Order
import EpisodicReplay.Proofs.Rounding.Packing

/-! Binary32 numbers as rationals: order, operations and bounds. -/

namespace EpisodicReplay.Binary32
open Float.Model (Format UnpackedFloat)
open Float.Model.UnpackedFloat (Sign)
open Rounding (Canonical RoundsTo magnitude limit)

theorem isFinite_zero : (0 : Float32).isFinite = true := rfl

theorem isFinite_one : (1 : Float32).isFinite = true := rfl

theorem finiteOr_of_isFinite {value : Float32} (finite : value.isFinite) (fallback : Float32) :
    finiteOr value fallback = value := by
  rw [finiteOr, if_pos finite]

theorem finiteOr_isFinite (value : Float32) {fallback : Float32} (finite : fallback.isFinite) :
    (finiteOr value fallback).isFinite := by
  unfold finiteOr
  split <;> assumption

/-- The rational value; a number that is not finite counts as zero. -/
def value (number : Float32) : ℚ :=
  Rounding.value number.toModel.unpack

/-- A finite number is the nearest one to a rational, ties to even. -/
def IsNearest (number : Float32) (exact : ℚ) : Prop :=
  RoundsTo .binary32 exact number.toModel.unpack

theorem canonical (number : Float32) : Canonical .binary32 number.toModel.unpack :=
  Rounding.canonical_unpack _

theorem isNearest_value {number : Float32} (finite : number.isFinite = true) : IsNearest number (value number) :=
  (canonical number).roundsTo finite

theorem le_iff {left right : Float32} (leftFinite : left.isFinite = true) (rightFinite : right.isFinite = true) :
    left ≤ right ↔ value left ≤ value right := by
  have unfolded : left ≤ right ↔ left.toModel.unpack.le right.toModel.unpack = true := decide_eq_true_iff
  rw [unfolded, UnpackedFloat.le, Rounding.compare_eq leftFinite (canonical left) rightFinite (canonical right),
    Option.any_some]
  change (compare (value left) (value right)).isLE = true ↔ _
  rw [Ordering.isLE_iff_ne_gt, compare_gt_iff_gt, not_lt]

theorem lt_iff {left right : Float32} (leftFinite : left.isFinite = true) (rightFinite : right.isFinite = true) :
    left < right ↔ value left < value right := by
  have unfolded : left < right ↔ left.toModel.unpack.lt right.toModel.unpack = true := decide_eq_true_iff
  rw [unfolded, UnpackedFloat.lt, Rounding.compare_eq leftFinite (canonical left) rightFinite (canonical right),
    beq_iff_eq, Option.some_inj]
  exact compare_lt_iff_lt

theorem unpack_infinity : infinity.toModel.unpack = .infinity .positive := rfl

theorem isFinite_infinity : infinity.isFinite = false := by
  change infinity.toModel.unpack.isFinite = false
  rw [unpack_infinity]
  rfl

theorem lt_infinity {number : Float32} (finite : number.isFinite = true) : number < infinity := by
  have unfolded : number < infinity ↔ number.toModel.unpack.lt infinity.toModel.unpack = true := decide_eq_true_iff
  rw [unfolded, unpack_infinity]
  change number.toModel.unpack.isFinite = true at finite
  cases unpacked : number.toModel.unpack with
  | infinity | notANumber => simp [unpacked, UnpackedFloat.isFinite] at finite
  | zero | finite => rfl

theorem le_of_lt {left right : Float32} (less : left < right) : left ≤ right := by
  have unfolded : left < right ↔ left.toModel.unpack.lt right.toModel.unpack = true := decide_eq_true_iff
  rw [unfolded, UnpackedFloat.lt, beq_iff_eq] at less
  have unfoldedLe : left ≤ right ↔ left.toModel.unpack.le right.toModel.unpack = true := decide_eq_true_iff
  rw [unfoldedLe, UnpackedFloat.le, less]
  rfl

theorem not_infinity_le {number : Float32} (finite : number.isFinite = true) : ¬infinity ≤ number := by
  have unfolded : infinity ≤ number ↔ infinity.toModel.unpack.le number.toModel.unpack = true := decide_eq_true_iff
  rw [unfolded, unpack_infinity]
  change number.toModel.unpack.isFinite = true at finite
  cases unpacked : number.toModel.unpack with
  | infinity | notANumber => simp [unpacked, UnpackedFloat.isFinite] at finite
  | zero sign => cases sign <;> decide
  | finite sign => cases sign <;> simp [UnpackedFloat.le, UnpackedFloat.compare]

/-- Numbers are told apart by their unpacked form. -/
theorem eq_of_unpack_eq {left right : Float32} (equal : left.toModel.unpack = right.toModel.unpack) : left = right :=
  Float32.toBits_inj.mp <| UInt32.toBitVec_inj.mp <|
    (UnpackedFloat.unpack_inj_of_valid left.toModel.valid right.toModel.valid).mp equal

theorem magnitude_lt_limit (number : Float32) : magnitude number.toModel.unpack < limit .binary32 :=
  Rounding.magnitude_unpack_lt_limit (by decide) _

theorem unpack_neg (number : Float32) : (-number).toModel.unpack = number.toModel.unpack.neg := by
  refine Rounding.unpack_pack (by decide) (canonical number).neg ?_
  rw [Rounding.magnitude_neg]
  exact magnitude_lt_limit number

theorem value_neg (number : Float32) : value (-number) = -value number := by
  rw [value, unpack_neg, Rounding.value_neg]
  rfl

theorem isFinite_neg {number : Float32} (finite : number.isFinite = true) : (-number).isFinite = true := by
  change number.toModel.unpack.isFinite = true at finite
  change (-number).toModel.unpack.isFinite = true
  rw [unpack_neg]
  cases unpacked : number.toModel.unpack <;> simp_all [UnpackedFloat.neg, UnpackedFloat.isFinite]

theorem unpack_abs (number : Float32) : number.abs.toModel.unpack = number.toModel.unpack.abs := by
  have bounded := magnitude_lt_limit number
  have numberCanonical := canonical number
  refine Rounding.unpack_pack (by decide) ?_ ?_
  · cases unpacked : number.toModel.unpack <;> simp_all [UnpackedFloat.abs, Canonical]
  · cases unpacked : number.toModel.unpack <;> simp_all [UnpackedFloat.abs, magnitude]

theorem isFinite_abs {number : Float32} (finite : number.isFinite = true) : number.abs.isFinite = true := by
  change number.toModel.unpack.isFinite = true at finite
  change number.abs.toModel.unpack.isFinite = true
  rw [unpack_abs]
  cases unpacked : number.toModel.unpack <;> simp_all [UnpackedFloat.abs, UnpackedFloat.isFinite]

theorem value_abs (number : Float32) : value number.abs = |value number| := by
  rw [value, value, unpack_abs, Rounding.abs_value]
  cases number.toModel.unpack <;> rfl

theorem isFinite_maximum {left right : Float32} (leftFinite : left.isFinite = true)
    (rightFinite : right.isFinite = true) : (maximum left right).isFinite = true := by
  unfold maximum
  split
  · exact rightFinite
  · split <;> assumption

/-- The sign bit. It is set in a negative zero too. -/
def signBit (number : Float32) : Bool :=
  number.toBits.toBitVec.msb

theorem signBit_eq {left right : Float32} (leftFinite : left.isFinite = true) (rightFinite : right.isFinite = true)
    (same : Rounding.sign left.toModel.unpack = Rounding.sign right.toModel.unpack) :
    signBit left = signBit right := by
  have leftSign := @Rounding.toBitVec_sign_unpack .binary32 left.toModel.toBits.toBitVec leftFinite
  have rightSign := @Rounding.toBitVec_sign_unpack .binary32 right.toModel.toBits.toBitVec rightFinite
  have equal : left.toModel.toBits.toBitVec.extractLsb 31 31 = right.toModel.toBits.toBitVec.extractLsb 31 31 :=
    leftSign.symm.trans ((congrArg Sign.toBitVec same).trans rightSign)
  have bit := congrArg (BitVec.getLsbD · 0) equal
  simpa [signBit, Float32.toBits, BitVec.msb_eq_getLsbD_last] using bit

/-- Stores the result of an operation that is rounded and not too large. -/
theorem isNearest_pack {exact : ℚ} {unpacked : UnpackedFloat} (rounds : RoundsTo .binary32 exact unpacked)
    (small : |exact| ≤ 2 ^ 127) : IsNearest (.ofModel (.pack unpacked)) exact := by
  have bounded : magnitude unpacked ≤ (2 : ℚ) ^ (127 : ℤ) :=
    rounds.magnitude_le (by decide) (by exact_mod_cast small)
  have fits : magnitude unpacked < limit .binary32 := bounded.trans_lt (by norm_num [limit, Format.exponentBias])
  have kept : (Float32.ofModel (.pack unpacked)).toModel.unpack = unpacked :=
    Rounding.unpack_pack (by decide) rounds.canonical fits
  rwa [IsNearest, kept]

section operations
variable {left right : Float32}

theorem add_isNearest (leftFinite : left.isFinite = true) (rightFinite : right.isFinite = true)
    (small : |value left + value right| ≤ 2 ^ 127) : IsNearest (left + right) (value left + value right) :=
  isNearest_pack (Rounding.add_roundsTo leftFinite (canonical left) rightFinite (canonical right)) small

theorem sub_isNearest (leftFinite : left.isFinite = true) (rightFinite : right.isFinite = true)
    (small : |value left - value right| ≤ 2 ^ 127) : IsNearest (left - right) (value left - value right) :=
  isNearest_pack (Rounding.sub_roundsTo leftFinite (canonical left) rightFinite (canonical right)) small

theorem mul_isNearest (leftFinite : left.isFinite = true) (rightFinite : right.isFinite = true)
    (small : |value left * value right| ≤ 2 ^ 127) : IsNearest (left * right) (value left * value right) :=
  isNearest_pack (Rounding.mul_roundsTo leftFinite (canonical left) rightFinite (canonical right)) small

theorem div_isNearest (leftFinite : left.isFinite = true) (rightFinite : right.isFinite = true)
    (nonzero : value right ≠ 0) (small : |value left / value right| ≤ 2 ^ 127) :
    IsNearest (left / right) (value left / value right) :=
  isNearest_pack (Rounding.div_roundsTo leftFinite rightFinite nonzero) small

end operations

namespace IsNearest
variable {number lower upper : Float32} {exact low high : ℚ}

theorem isFinite (nearest : IsNearest number exact) : number.isFinite = true :=
  RoundsTo.isFinite nearest

theorem mono (lowNearest : IsNearest lower low) (highNearest : IsNearest upper high) (ordered : low ≤ high) :
    value lower ≤ value upper :=
  RoundsTo.mono lowNearest highNearest ordered

theorem value_le (nearest : IsNearest number exact) (finite : upper.isFinite = true) (bound : exact ≤ value upper) :
    value number ≤ value upper :=
  nearest.mono (isNearest_value finite) bound

theorem le_value (nearest : IsNearest number exact) (finite : lower.isFinite = true) (bound : value lower ≤ exact) :
    value lower ≤ value number :=
  (isNearest_value finite).mono nearest bound

theorem abs_value_le (nearest : IsNearest number exact) (finite : upper.isFinite = true)
    (bound : |exact| ≤ value upper) : |value number| ≤ value upper := by
  obtain ⟨low, high⟩ := abs_le.mp bound
  have above := nearest.le_value (isFinite_neg finite) (by rwa [value_neg])
  rw [value_neg] at above
  exact abs_le.mpr ⟨above, nearest.value_le finite high⟩

end IsNearest

theorem value_of_unpack_eq {number : Float32} {sign : Sign} {mantissa : ℕ} {exponent : ℤ} {positive : 0 < mantissa}
    (unpacked : number.toModel.unpack = .finite sign mantissa exponent positive) :
    value number = (sign.apply mantissa : ℤ) * 2 ^ exponent := by
  rw [value, unpacked, Rounding.value_finite]

@[simp]
theorem value_zero : value 0 = 0 :=
  congrArg Rounding.value (show (0 : Float32).toModel.unpack = .zero .positive from rfl) |>.trans
    (Rounding.value_zero _)

@[simp]
theorem value_one : value 1 = 1 := by
  have unpacked : (1 : Float32).toModel.unpack = .finite .positive (2 ^ 23) (-23) (by decide) := rfl
  rw [value_of_unpack_eq unpacked]
  norm_num [Sign.apply]

@[simp]
theorem value_two : value 2 = 2 := by
  have unpacked : (2 : Float32).toModel.unpack = .finite .positive (2 ^ 23) (-22) (by decide) := rfl
  rw [value_of_unpack_eq unpacked]
  norm_num [Sign.apply]

end EpisodicReplay.Binary32
