import EpisodicReplay.Decimal.Digits
import EpisodicReplay.Binary32

/-! Decimal text to binary32 with a single rounding. -/

namespace EpisodicReplay.Decimal

/-- The number `value * 10 ^ exponent` rounded once. -/
def nearestFloat32 (value : Nat) (exponent : Int) : Float32 :=
  .ofScientific value (exponent < 0) exponent.natAbs

/-- An exponent is empty, or the letter `e`, an optional sign and one or more digits. -/
def readExponent? : List Char → Option Int
  | [] => some 0
  | mark :: rest =>
    if mark = 'e' ∨ mark = 'E' then
      let (negative, digits) := match rest with
        | '-' :: digits => (true, digits)
        | '+' :: digits => (false, digits)
        | digits => (false, digits)
      if digits.isEmpty then none
      else (digitsValue? digits).map fun value => if negative then -(value : Int) else value
    else none

/-- Digits with an optional point among them, then an exponent. At least one digit is needed. -/
def readMagnitude? (chars : List Char) : Option Float32 :=
  let whole := chars.takeWhile isDigit
  let (fraction, exponentText) := match chars.dropWhile isDigit with
    | '.' :: rest => (rest.takeWhile isDigit, rest.dropWhile isDigit)
    | rest => ([], rest)
  if whole.isEmpty && fraction.isEmpty then none
  else do
    let value ← digitsValue? (whole ++ fraction)
    let exponent ← readExponent? exponentText
    return nearestFloat32 value (exponent - fraction.length)

/-- Reads a number, or an infinity or NaN by name in any letter case, after an optional sign. -/
def readFloat32? (chars : List Char) : Option Float32 :=
  let (negative, magnitude) := match chars with
    | '-' :: rest => (true, rest)
    | '+' :: rest => (false, rest)
    | rest => (false, rest)
  let name := magnitude.map Char.toLower
  let value? :=
    if name = "inf".toList ∨ name = "infinity".toList then some Binary32.infinity
    else if name = "nan".toList then some (0 / 0)
    else readMagnitude? magnitude
  value?.map fun value => if negative then -value else value

end EpisodicReplay.Decimal
