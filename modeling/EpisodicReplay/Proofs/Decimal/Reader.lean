import EpisodicReplay.Decimal.Reader
import EpisodicReplay.Proofs.Decimal.Digits
import EpisodicReplay.Proofs.Decimal.Fixed
import EpisodicReplay.Proofs.Decimal.Scientific

/-! A finite number is read back from its six places, up to a rounding that happens only once. -/

namespace EpisodicReplay.Decimal
open Float.Model (Format UnpackedFloat)
open Float.Model.UnpackedFloat (Sign)
open Rounding (Canonical Nearest Rounds limit magnitude)

section text
variable {chars whole fraction : List Char} {number units places : ℕ}

/-- No digit begins a sign or the name of a number. -/
theorem digit_begins_number : ∀ char ∈ "0123456789".toList,
    char ≠ '-' ∧ char ≠ '+' ∧ char.toLower ≠ 'i' ∧ char.toLower ≠ 'n' :=
  List.all_iff_forall_prop.mp rfl

/-- Digits round a point are read as one number of places. -/
theorem readMagnitude?_point (nonempty : whole ≠ []) (wholeNumeric : ∀ char ∈ whole, isDigit char = true)
    (fractionNumeric : ∀ char ∈ fraction, isDigit char = true)
    (value : digitsValue? (whole ++ fraction) = some number) :
    readMagnitude? (whole ++ '.' :: fraction) = some (nearestFloat32 number (-fraction.length)) := by
  have front : (whole ++ '.' :: fraction).takeWhile isDigit = whole := by
    rw [List.takeWhile_append_of_pos wholeNumeric, List.takeWhile_cons_of_neg (by decide), List.append_nil]
  have back : (whole ++ '.' :: fraction).dropWhile isDigit = '.' :: fraction := by
    rw [List.dropWhile_append_of_pos wholeNumeric, List.dropWhile_cons_of_neg (by decide)]
  have taken : fraction.takeWhile isDigit = fraction := List.takeWhile_eq_self_iff.mpr fractionNumeric
  have dropped : fraction.dropWhile isDigit = [] := List.dropWhile_eq_nil_iff.mpr fractionNumeric
  simp only [readMagnitude?, front, back, taken, dropped, value, readExponent?]
  simp [nonempty]

/-- The text of units has at least one digit before the point and the wanted number after it. -/
theorem fixedText_eq (positive : 0 < places) : ∃ whole fraction, fixedText places units = whole ++ '.' :: fraction ∧
    whole ++ fraction = paddedDigits (places + 1) units ∧ whole ≠ [] ∧ fraction.length = places := by
  have wide := @width_le_length_paddedDigits units (places + 1)
  refine ⟨_, _, ?_, List.take_append_drop ((paddedDigits (places + 1) units).length - places) _, ?_, ?_⟩
  · simp only [fixedText, if_neg positive.ne']
  · rw [ne_eq, ← List.length_eq_zero_iff, List.length_take]
    omega
  · rw [List.length_drop]
    omega

theorem readMagnitude?_fixedText (positive : 0 < places) :
    readMagnitude? (fixedText places units) = some (nearestFloat32 units (-places)) := by
  obtain ⟨whole, fraction, text, digits, nonempty, length⟩ := @fixedText_eq units places positive
  have numeric : ∀ char ∈ whole ++ fraction, isDigit char = true := by
    rw [digits]
    exact isDigit_of_mem_paddedDigits
  rw [text, readMagnitude?_point nonempty (fun char member => numeric char (List.mem_append_left _ member))
    (fun char member => numeric char (List.mem_append_right _ member)) (by rw [digits, digitsValue?_paddedDigits]),
    length]

/-- A text that begins with a digit is read as a magnitude, also after a sign. -/
theorem readFloat32?_signText (sign : Sign) {first : Char} {rest : List Char} (numeric : isDigit first = true) :
    readFloat32? (signText sign ++ first :: rest) = (readMagnitude? (first :: rest)).map fun value =>
      match sign with
      | .negative => -value
      | .positive => value := by
  obtain ⟨notMinus, notPlus, notI, notN⟩ := digit_begins_number first (mem_of_isDigit numeric)
  have unnamed : ¬((first :: rest).map Char.toLower = "inf".toList ∨
      (first :: rest).map Char.toLower = "infinity".toList) ∧ (first :: rest).map Char.toLower ≠ "nan".toList := by
    simp only [List.map_cons]
    refine ⟨?_, ?_⟩
    · rintro (equal | equal) <;> exact notI (List.cons.inj equal).1
    · intro equal
      exact notN (List.cons.inj equal).1
  cases sign with
  | negative =>
      simp only [signText, List.singleton_append, readFloat32?, unnamed, if_false]
      rfl
  | positive =>
      simp only [signText, List.nil_append]
      unfold readFloat32?
      split
      case h_1 negative digits equal =>
        split at equal
        case h_1 same => exact absurd (List.cons.inj same).1 notMinus
        case h_2 same => exact absurd (List.cons.inj same).1 notPlus
        case h_3 =>
          obtain ⟨rfl, rfl⟩ := Prod.mk.inj equal
          simp only [unnamed, if_false]
          rfl

end text

section number

/-- What six places keep of a number. -/
structure Kept (original copy : Float32) : Prop where
  close : |Binary32.value copy - Binary32.value original| < 1 / 10 ^ 6
  exact : 16 ≤ |Binary32.value original| → copy = original
  sign : Binary32.signBit copy = Binary32.signBit original

variable {original : Float32} {units : ℕ}

/-- A finite number is written as the units nearest to its magnitude. -/
theorem fixed_eq (finite : original.isFinite = true)
    (nearest : Nearest units (magnitude original.toModel.unpack * 10 ^ 6)) :
    fixed 6 original = signText (Rounding.sign original.toModel.unpack) ++ fixedText 6 units := by
  change original.toModel.unpack.isFinite = true at finite
  unfold fixed
  cases unpacked : original.toModel.unpack with
  | infinity | notANumber => simp [unpacked, UnpackedFloat.isFinite] at finite
  | zero sign =>
      rw [unpacked] at nearest
      rw [units_eq_zero nearest]
      rfl
  | finite sign mantissa exponent positive =>
      rw [unpacked] at nearest
      rw [nearest.unique (fixedUnits_nearest 6 mantissa exponent)]
      rfl

/-- Reading the text of a number of units rounds them once. -/
theorem readFloat32?_fixedText (sign : Sign) (units : ℕ) :
    ∃ copy rounded, readFloat32? (signText sign ++ fixedText 6 units) = some copy ∧
      Rounds .binary32 sign (units / 10 ^ 6) rounded ∧
      (magnitude rounded < limit .binary32 → copy.toModel.unpack = rounded) := by
  obtain ⟨whole, fraction, text, digits, nonempty, length⟩ := @fixedText_eq units 6 (by decide)
  obtain ⟨first, rest, rfl⟩ := List.exists_cons_of_ne_nil nonempty
  have numeric : isDigit first = true := by
    apply @isDigit_of_mem_paddedDigits units 7
    rw [← digits]
    exact List.mem_cons_self
  obtain ⟨rounded, equal, rounds⟩ := ofScientific_rounds units
  have read := @readFloat32?_signText sign first (rest ++ '.' :: fraction) numeric
  rw [← List.cons_append, ← text, readMagnitude?_fixedText (by decide)] at read
  have unpacked (fits : magnitude rounded < limit .binary32) :
      (nearestFloat32 units (-6)).toModel.unpack = rounded := by
    change (Float32.ofScientific units true 6).toModel.unpack = rounded
    rw [equal]
    exact Rounding.unpack_pack (by decide) rounds.canonical fits
  cases sign with
  | negative =>
      refine ⟨_, rounded.neg, read, rounds.neg, fun fits => ?_⟩
      rw [Rounding.magnitude_neg] at fits
      change (-nearestFloat32 units (-6)).toModel.unpack = rounded.neg
      rw [Binary32.unpack_neg, unpacked fits]
  | positive => exact ⟨_, rounded, read, rounds, unpacked⟩

/-- A finite number is read back from six places, and has the same six places again. -/
theorem readFloat32?_fixed (finite : original.isFinite = true) :
    ∃ copy, readFloat32? (fixed 6 original) = some copy ∧ copy.isFinite = true ∧ Kept original copy ∧
      fixed 6 copy = fixed 6 original := by
  obtain ⟨units, nearest⟩ := exists_units original.toModel.unpack
  obtain ⟨copy, rounded, read, rounds, unpacked⟩ := readFloat32?_fixedText (Rounding.sign original.toModel.unpack) units
  obtain ⟨fits, close, exact, again⟩ := six_places (Binary32.canonical original) finite
    (Binary32.magnitude_lt_limit original) nearest rounds
  obtain rfl := unpacked fits
  have copyFinite : copy.isFinite = true := rounds.isFinite
  have absolute : |Binary32.value original| = magnitude original.toModel.unpack := Rounding.abs_value _
  refine ⟨copy, ?_, copyFinite, ⟨?_, fun large => ?_, ?_⟩, ?_⟩
  · rw [fixed_eq finite nearest, read]
  · unfold Binary32.value Rounding.value
    rwa [rounds.sign_eq, Rounding.abs_signed_sub]
  · exact Binary32.eq_of_unpack_eq (exact (absolute ▸ large))
  · exact Binary32.signBit_eq copyFinite finite rounds.sign_eq
  · rw [fixed_eq copyFinite again, fixed_eq finite nearest, rounds.sign_eq]

end number

end EpisodicReplay.Decimal
