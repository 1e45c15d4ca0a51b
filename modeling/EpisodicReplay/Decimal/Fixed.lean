import EpisodicReplay.Decimal.Shortest

/-! Binary32 numbers with a fixed number of decimal places. -/

namespace EpisodicReplay.Decimal
open Float.Model (UnpackedFloat)

/-- The integer nearest to a fraction, ties to even. -/
def nearestEven (numerator denominator : Nat) : Nat :=
  let quotient := numerator / denominator
  let twice := 2 * (numerator % denominator)
  if denominator < twice ∨ denominator = twice ∧ quotient % 2 = 1 then quotient + 1 else quotient

/-- How many units of `10 ^ -places` are nearest to `mantissa * 2 ^ exponent`. -/
def fixedUnits (places mantissa : Nat) (exponent : Int) : Nat :=
  nearestEven (mantissa * Nat.pow 10 places * Nat.pow 2 exponent.toNat) (Nat.pow 2 (-exponent).toNat)

/-- Writes `units * 10 ^ -places` with exactly that many places. -/
def fixedText (places units : Nat) : List Char :=
  let padded := paddedDigits (places + 1) units
  let whole := padded.length - places
  padded.take whole ++ (if places = 0 then [] else '.' :: padded.drop whole)

/-- A number with the given places, rounded from its exact value. A negative zero keeps its sign. -/
def fixed (places : Nat) (value : Float32) : List Char :=
  match value.toModel.unpack with
  | .notANumber => "NaN".toList
  | .infinity sign => signText sign ++ "inf".toList
  | .zero sign => signText sign ++ fixedText places 0
  | .finite sign mantissa exponent _ => signText sign ++ fixedText places (fixedUnits places mantissa exponent)

end EpisodicReplay.Decimal
