import EpisodicReplay.Binary32
import EpisodicReplay.Decimal.Digits

/-! Numbers of JSON text: their spelling and the value a reader takes from it. -/

namespace EpisodicReplay.Json

/-- A number as it is spelled. The fraction is empty when there is no point. -/
structure Number where
  negative : Bool
  whole : List Char
  fraction : List Char
  exponent : Option (Bool × List Char)
deriving Repr, DecidableEq

/-- Integers that fit 64 bits stay exact; every other number is a binary64 value. -/
inductive NumberValue where
  | natural (value : UInt64)
  | negative (magnitude : Nat)
  | real (value : Float)

namespace Number

def isInteger (number : Number) : Bool :=
  number.fraction.isEmpty && number.exponent.isNone

/-- Appends digits to a significand as long as it fits 64 bits. Returns the digits that are left. -/
def appendDigits (significand : Nat) : List Char → Nat × List Char
  | [] => (significand, [])
  | char :: rest =>
    let extended := 10 * significand + (Decimal.digit? char).getD 0
    if extended < UInt64.size then appendDigits extended rest else (significand, char :: rest)

/-- Scales by a power of ten with one binary64 operation per 308 places. A number that grows beyond the
binary64 range is refused. -/
def scale? (value : Float) (exponent : Int) : Option Float :=
  if exponent.natAbs ≤ 308 then
    if 0 ≤ exponent then
      let scaled := value * .ofScientific 1 false exponent.toNat
      if scaled.isInf then none else some scaled
    else some (value / .ofScientific 1 false exponent.natAbs)
  else if value == 0 then some value
  else if 0 ≤ exponent then none
  else scale? (value / .ofScientific 1 false 308) (exponent + 308)
termination_by exponent.natAbs
decreasing_by omega

/-- The magnitude of a number that is not an integer of 64 bits. The significand keeps the digits that fit 64
bits; whole digits after them count as places, and digits of the fraction after them count for nothing. -/
def magnitude? (number : Number) : Option Float :=
  let (wholePart, extraWhole) := appendDigits 0 number.whole
  let (significand, extraFraction) := appendDigits wholePart number.fraction
  let places : Int := extraWhole.length - (number.fraction.length - extraFraction.length : Nat)
  let value := significand.toUInt64.toFloat
  match number.exponent with
  | none => scale? value places
  | some (negative, digits) =>
    let exponent := (Decimal.digitsValue? digits).getD 0
    if exponent < 0x80000000 then scale? value (if negative then places - exponent else places + exponent)
    else if negative || significand == 0 then some 0
    else none

/-- The value of a number; none beyond the binary64 range. Negative zero is a binary64 value. -/
def value? (number : Number) : Option NumberValue :=
  let whole := (Decimal.digitsValue? number.whole).getD 0
  if number.isInteger && !number.negative && whole < UInt64.size then some (.natural (.ofNat whole))
  else if number.isInteger && number.negative && 0 < whole && whole ≤ 0x8000000000000000 then some (.negative whole)
  else number.magnitude?.map fun magnitude => .real (if number.negative then -magnitude else magnitude)

end Number

/-- One rounding from an integer, two from a fraction or a number with an exponent. -/
def NumberValue.toFloat32 : NumberValue → Float32
  | .natural value => value.toFloat32
  | .negative magnitude => -magnitude.toUInt64.toFloat32
  | .real value => Binary32.narrow value

def NumberValue.toFloat : NumberValue → Float
  | .natural value => value.toFloat
  | .negative magnitude => -magnitude.toUInt64.toFloat
  | .real value => value

end EpisodicReplay.Json
