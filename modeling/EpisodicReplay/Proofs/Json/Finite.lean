import EpisodicReplay.Proofs.Json.Range

/-! However a number is spelled, the value that is read from it is finite. -/

namespace EpisodicReplay.Rounding
open Float.Model (Format UnpackedFloat)
open Float.Model.UnpackedFloat (Sign pack packedInfinity unpack unpack_packedZero)

/-- A rounded number is stored as it is, or as an infinity. -/
theorem isFinite_or_isInf_pack {spec : Format} (wide : 2 ≤ spec.exponentBits) {unpacked : UnpackedFloat}
    (canonical : Canonical spec unpacked) (finite : unpacked.isFinite = true) :
    (unpack spec (pack spec unpacked)).isFinite = true ∨ (unpack spec (pack spec unpacked)).isInf = true := by
  rcases lt_or_ge (magnitude unpacked) (limit spec) with fits | large
  · rw [unpack_pack wide canonical fits]
    exact .inl finite
  · cases unpacked with
    | infinity | notANumber => cases finite
    | zero sign =>
        rw [pack, unpack_packedZero]
        exact .inl rfl
    | finite sign mantissa exponent positive =>
        have stored := (lt_limit_iff wide canonical).not.mp (not_lt.mpr large)
        have range := two_pow_exponentBits spec
        have full : 2 ^ spec.exponentBits ≤
            (exponent + spec.exponentBias + spec.mantissaBitsWithoutImplicit).toNat + 1 := by omega
        have packed : pack spec (.finite sign mantissa exponent positive) = packedInfinity spec sign := by
          simp only [pack]
          rw [if_pos full]
        rw [packed]
        simp [unpack, packedInfinity]
        exact .inr rfl

end EpisodicReplay.Rounding

namespace EpisodicReplay.Json
open Float.Model (Format UnpackedFloat)
open Rounding (Canonical Rounds magnitude limit)

section binary64
variable {left right : Float}

theorem canonical_float (number : Float) : Canonical .binary64 number.toModel.unpack :=
  Rounding.canonical_unpack _

/-- A power of ten beyond the exact ones is rounded once. -/
theorem ofScientific_rounds {exponent : ℕ} (many : 22 < exponent) (reach : exponent ≤ 308) :
    ∃ rounded, Float.ofScientific 1 false exponent = .ofModel (.pack rounded) ∧
      Rounds .binary64 .positive (10 ^ exponent) rounded := by
  have inexact : ¬((1 : ℕ) < 2 ^ 53 ∧ exponent ≤ 22) := by omega
  let one : UnpackedFloat := .finite .positive (1 <<< 53) (-53) (by decide)
  let power : UnpackedFloat := .finite .positive (10 ^ exponent) 0 (by positivity)
  have scaled : UnpackedFloat.ofScientific .binary64 1 exponent = .mul .binary64 one power := by
    unfold UnpackedFloat.ofScientific
    rw [dif_neg (by decide), if_neg (by norm_num; omega), if_neg (by norm_num; omega), if_pos (by omega)]
    rfl
  refine ⟨.mul .binary64 one power, ?_, ?_⟩
  · unfold Float.ofScientific
    rw [dif_neg inexact]
    exact congrArg (fun unpacked => Float.ofModel (.pack unpacked)) scaled
  · have full : 2 ^ 52 ≤ (1 <<< 53) * 10 ^ exponent := by
      have : 0 < 10 ^ exponent := by positivity
      omega
    have exact : (((1 <<< 53) * 10 ^ exponent : ℕ) : ℚ) * 2 ^ ((-53 : ℤ) + 0) = 10 ^ exponent := by
      push_cast
      norm_num
      ring
    rw [← exact]
    exact Rounding.roundWithAccuracy_rounds (Rounding.fine_of_full full) (Rounding.encodes_exact _)

/-- The largest number of the format is above every power of ten that is scaled with. -/
theorem power_lt_limit {exponent : ℕ} {rounded : UnpackedFloat} (reach : exponent ≤ 308)
    (rounds : Rounds .binary64 .positive (10 ^ exponent) rounded) : magnitude rounded < limit .binary64 := by
  let largest : UnpackedFloat := .finite .positive (2 ^ 53 - 1) 971 (by decide)
  have canonical : Canonical .binary64 largest := Rounding.grid_count_iff.mpr (by decide)
  have magnitudeEq : magnitude largest = ((2 ^ 53 - 1) * 2 ^ 971 : ℕ) := by
    rw [Nat.cast_mul, Nat.cast_pow]
    exact congrArg _ (zpow_natCast 2 971)
  have above : (10 : ℚ) ^ exponent ≤ magnitude largest := by
    have whole : 10 ^ 308 ≤ (2 ^ 53 - 1) * 2 ^ 971 := by decide +kernel
    have cast : ((10 ^ exponent : ℕ) : ℚ) = 10 ^ exponent := by push_cast; rfl
    rw [magnitudeEq, ← cast]
    exact Nat.cast_le.mpr ((pow_le_pow_right₀ (by decide) reach).trans whole)
  have below : magnitude largest < limit .binary64 := by
    have whole : (2 ^ 53 - 1) * 2 ^ 971 < 2 ^ (Format.binary64.exponentBias + 1) := by decide +kernel
    rw [magnitudeEq, limit]
    exact_mod_cast whole
  exact (rounds.mono (canonical.rounds rfl) above).trans_lt below

/-- A power of ten is finite and does not shrink what it multiplies. -/
theorem power_isFinite {exponent : ℕ} (reach : exponent ≤ 308) :
    (Float.ofScientific 1 false exponent).toModel.unpack.isFinite = true ∧
      1 ≤ magnitude (Float.ofScientific 1 false exponent).toModel.unpack := by
  rcases Nat.lt_or_ge 22 exponent with many | few
  · obtain ⟨rounded, equal, rounds⟩ := ofScientific_rounds many reach
    have kept : (Float.ofScientific 1 false exponent).toModel.unpack = rounded := by
      rw [equal]
      exact Rounding.unpack_pack (by decide) rounds.canonical (power_lt_limit reach rounds)
    let one : UnpackedFloat := .finite .positive (2 ^ 52) (-52) (by decide)
    have canonical : Canonical .binary64 one := Rounding.grid_count_iff.mpr (by decide)
    have oneEq : magnitude one = 1 := by norm_num [one, magnitude]
    rw [kept, ← oneEq]
    refine ⟨rounds.isFinite, (canonical.rounds rfl).mono rounds ?_⟩
    rw [oneEq]
    exact one_le_pow₀ (by norm_num)
  · obtain ⟨sign, mantissa, place, positive, unpacked, -, -, whole⟩ := @exists_unpack_power exponent (by omega)
    have digits : (2 : ℚ) ^ (-place).toNat ≤ mantissa := by exact_mod_cast whole
    have lifted : (1 : ℚ) ≤ 2 ^ (((-place).toNat : ℤ) + place) := one_le_zpow₀ (by norm_num) (by omega)
    rw [unpacked]
    refine ⟨rfl, ?_⟩
    calc (1 : ℚ)
      _ ≤ 2 ^ (-place).toNat * 2 ^ place := by rwa [← zpow_natCast, ← zpow_add₀ two_ne_zero]
      _ ≤ mantissa * 2 ^ place := by gcongr

/-- A product is finite unless it is infinite. -/
theorem isFinite_mul (leftFinite : left.toModel.unpack.isFinite = true)
    (rightFinite : right.toModel.unpack.isFinite = true) (bounded : (left * right).isInf = false) :
    (left * right).toModel.unpack.isFinite = true := by
  have rounds := Rounding.mul_roundsTo leftFinite (canonical_float left) rightFinite (canonical_float right)
  rcases Rounding.isFinite_or_isInf_pack (by decide) rounds.canonical rounds.isFinite with finite | infinite
  · exact finite
  · exact absurd (bounded.symm.trans infinite) (by decide)

/-- A quotient by a number of at least one is finite. -/
theorem isFinite_div (leftFinite : left.toModel.unpack.isFinite = true)
    (rightFinite : right.toModel.unpack.isFinite = true) (large : 1 ≤ magnitude right.toModel.unpack) :
    (left / right).toModel.unpack.isFinite = true := by
  have rounds := @Rounding.div_rounds .binary64 _ _ leftFinite rightFinite (zero_lt_one.trans_le large).ne'
  have smaller : magnitude left.toModel.unpack / magnitude right.toModel.unpack ≤ magnitude left.toModel.unpack :=
    div_le_self (Rounding.magnitude_nonneg _) large
  have fits : magnitude (UnpackedFloat.div .binary64 left.toModel.unpack right.toModel.unpack) < limit .binary64 :=
    (rounds.mono ((canonical_float left).rounds leftFinite) smaller).trans_lt
      (Rounding.magnitude_unpack_lt_limit (by decide) _)
  have kept : (left / right).toModel.unpack = .div .binary64 left.toModel.unpack right.toModel.unpack :=
    Rounding.unpack_pack (by decide) rounds.canonical fits
  rw [kept]
  exact rounds.isFinite

theorem isFinite_neg {number : Float} (finite : number.toModel.unpack.isFinite = true) :
    (-number).toModel.unpack.isFinite = true := by
  have kept : (-number).toModel.unpack = number.toModel.unpack.neg := by
    refine Rounding.unpack_pack (by decide) (canonical_float number).neg ?_
    rw [Rounding.magnitude_neg]
    exact Rounding.magnitude_unpack_lt_limit (by decide) _
  rwa [kept, Rounding.isFinite_neg]

end binary64

namespace Number

/-- Each step of scaling keeps a number finite, or refuses it. -/
theorem isFinite_of_scale? {number scaled : Float} {exponent : Int} (finite : number.toModel.unpack.isFinite = true)
    (taken : scale? number exponent = some scaled) : scaled.toModel.unpack.isFinite = true := by
  fun_induction scale? number exponent with
  | case1 | case5 => cases taken
  | case2 number exponent near up product bounded =>
      obtain rfl := Option.some_inj.mp taken
      exact isFinite_mul finite (power_isFinite (by omega)).1 (Bool.eq_false_iff.mpr bounded)
  | case3 number exponent near down =>
      cases taken
      obtain ⟨powerFinite, large⟩ := power_isFinite near
      exact isFinite_div finite powerFinite large
  | case4 =>
      cases taken
      exact finite
  | case6 number exponent far nonzero down inductionHypothesis =>
      obtain ⟨powerFinite, large⟩ := @power_isFinite 308 le_rfl
      exact inductionHypothesis (isFinite_div finite powerFinite large) taken

theorem isFinite_of_magnitude? {number : Number} {magnitude : Float} (taken : number.magnitude? = some magnitude) :
    magnitude.toModel.unpack.isFinite = true := by
  obtain ⟨negative, whole, fraction, exponent⟩ := number
  have integral (significand : UInt64) := (toFloat_magnitude_le significand).1
  simp only [magnitude?] at taken
  cases exponent with
  | none => exact isFinite_of_scale? (integral _) taken
  | some parts =>
      dsimp only at taken
      split at taken
      · exact isFinite_of_scale? (integral _) taken
      · split at taken
        · cases taken
          rfl
        · cases taken

/-- No spelling is read as an infinity or as no number. -/
theorem isFinite_of_value? {number : Number} {value : Float} (taken : number.value? = some (.real value)) :
    value.toModel.unpack.isFinite = true := by
  unfold value? at taken
  dsimp only at taken
  split at taken
  case isTrue => cases taken
  case isFalse =>
    split at taken
    case isTrue => cases taken
    case isFalse =>
      obtain ⟨magnitude, taken, equal⟩ := Option.map_eq_some_iff.mp taken
      have finite := isFinite_of_magnitude? taken
      cases equal
      split
      · exact isFinite_neg finite
      · exact finite

end Number

end EpisodicReplay.Json
