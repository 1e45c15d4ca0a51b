import EpisodicReplay.Decimal.Digits

/-! The shortest decimal that reads back as a given binary32 number, and its two ways of being written. -/

namespace EpisodicReplay.Decimal
open Float.Model (UnpackedFloat)

/-- The number `significand * 10 ^ exponent`. -/
structure Scaled where
  significand : Nat
  exponent : Int
deriving Repr, DecidableEq

def digitCount (number : Nat) : Nat :=
  if number = 0 then 0 else digitCount (number / 10) + 1

/-- The exponent of the first digit of a positive fraction. -/
def leadingExponent (numerator denominator : Nat) : Int :=
  if numerator < denominator then -(digitCount ((denominator - 1) / numerator) : Nat)
  else (digitCount (numerator / denominator) : Int) - 1

/-- The numbers `low`, `value` and `high` over one denominator: those between `low` and `high` round to `value`. -/
structure RoundingInterval where
  low : Nat
  value : Nat
  high : Nat
  denominator : Nat
  closed : Bool

/-- The reals nearer to `mantissa * 2 ^ exponent` than to any other binary32 number. The gap below a power of
two is half the gap above it, except at the least exponent. -/
def RoundingInterval.ofBinary (mantissa : Nat) (exponent : Int) : RoundingInterval :=
  let below := if mantissa = 0x800000 ∧ exponent ≠ -149 then 1 else 2
  let quarter := exponent - 2
  let scale := Nat.pow 2 quarter.toNat
  { low := (4 * mantissa - below) * scale
    value := 4 * mantissa * scale
    high := (4 * mantissa + 2) * scale
    denominator := Nat.pow 2 (-quarter).toNat
    closed := mantissa % 2 = 0 }

/-- Which of two decimals stands for a value halfway between them. -/
inductive Tie where
  | even
  | up
deriving Repr, DecidableEq

def Tie.takesUpper (tie : Tie) (lower : Nat) : Bool :=
  match tie with
  | .even => lower % 2 = 1
  | .up => true

/-- The multiple of `10 ^ step` that is nearest to the value among its two neighbours inside the interval. -/
def RoundingInterval.onGrid? (interval : RoundingInterval) (tie : Tie) (step : Int) : Option Nat :=
  let scale := Nat.pow 10 (-step).toNat
  let unit := interval.denominator * Nat.pow 10 step.toNat
  let inside (count : Nat) : Bool :=
    if interval.closed then interval.low * scale ≤ count * unit ∧ count * unit ≤ interval.high * scale
    else interval.low * scale < count * unit ∧ count * unit < interval.high * scale
  let lower := interval.value * scale / unit
  let remainder := interval.value * scale % unit
  let upperNearer := unit < 2 * remainder ∨ unit = 2 * remainder ∧ tie.takesUpper lower
  match inside lower, inside (lower + 1) with
  | true, true => some (if upperNearer then lower + 1 else lower)
  | true, false => some lower
  | false, true => some (lower + 1)
  | false, false => none

/-- Moves the zeros at the end of the significand into the exponent. -/
def Scaled.trimmed (number : Scaled) : Scaled :=
  if number.significand = 0 then number
  else if number.significand % 10 = 0 then
    trimmed ⟨number.significand / 10, number.exponent + 1⟩
  else number
termination_by number.significand

/-- The shortest decimal that rounds to `mantissa * 2 ^ exponent`, and of those the nearest. Nine digits
always suffice. -/
def shortest (tie : Tie) (mantissa : Nat) (exponent : Int) : Scaled :=
  let interval := RoundingInterval.ofBinary mantissa exponent
  let leading := leadingExponent interval.value interval.denominator
  let found : Option Scaled := (List.range 9).findSome? fun (extra : Nat) =>
    let step := leading - extra
    (interval.onGrid? tie step).map (Scaled.mk · step)
  (found.getD ⟨0, 0⟩).trimmed

/-- Digits without an exponent; the point stands only before a fractional part. -/
def Scaled.positional (number : Scaled) : List Char :=
  let digits := digits number.significand
  match number.exponent with
  | .ofNat zeros => digits ++ List.replicate zeros '0'
  | .negSucc dropped =>
    let padded := digits.leftpad (dropped + 2) '0'
    let whole := padded.length - (dropped + 1)
    padded.take whole ++ '.' :: padded.drop whole

/-- One digit before the point and an exponent that always has its sign. -/
def Scaled.scientific (number : Scaled) : List Char :=
  let digits := digits number.significand
  let exponent := number.exponent + digits.length - 1
  let fraction := match digits.tail with
    | [] => []
    | tail => '.' :: tail
  let sign := if exponent < 0 then '-' else '+'
  digits.take 1 ++ fraction ++ 'e' :: sign :: Decimal.digits exponent.natAbs

def signText (sign : Float.Model.UnpackedFloat.Sign) : List Char :=
  match sign with
  | .negative => ['-']
  | .positive => []

/-- Plain text of a number: shortest digits, a half away from zero, never an exponent. -/
def plain (value : Float32) : String :=
  .ofList <| match value.toModel.unpack with
  | .notANumber => "NaN".toList
  | .infinity sign => signText sign ++ "inf".toList
  | .zero sign => signText sign ++ ['0']
  | .finite sign mantissa exponent _ => signText sign ++ (shortest .up mantissa exponent).positional

end EpisodicReplay.Decimal
