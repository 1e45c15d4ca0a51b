/-!
Binary32 arithmetic beside the core operations. Conversions go through the unpacked form, so each of them is
a single correct rounding of an exact value.
-/

namespace EpisodicReplay.Binary32
open Float.Model (Format UnpackedFloat)

def infinity : Float32 := .ofBits 0x7f800000

def negativeZero : Float32 := .ofBits 0x80000000

/-- The binary32 number nearest to an unpacked value, ties to even. -/
def round : UnpackedFloat → Float32
  | .finite sign mantissa exponent _ => .ofModel (.pack (.round .binary32 sign mantissa exponent))
  | special => .ofModel (.pack special)

/-- The binary64 number nearest to an unpacked value, ties to even. -/
def roundWide : UnpackedFloat → Float
  | .finite sign mantissa exponent _ => .ofModel (.pack (.round .binary64 sign mantissa exponent))
  | special => .ofModel (.pack special)

/-- Every binary32 value is a binary64 value. -/
def widen (value : Float32) : Float :=
  roundWide value.toModel.unpack

/-- One rounding; a value beyond the binary32 range becomes infinite. -/
def narrow (value : Float) : Float32 :=
  round value.toModel.unpack

/-- The integer nearest to `mantissa * 2 ^ exponent`, halves away from zero. -/
def nearestMagnitude (mantissa : Nat) : Int → Nat
  | .ofNat exponent => mantissa <<< exponent
  | .negSucc dropped => (mantissa + Nat.pow 2 dropped) >>> (dropped + 1)

/-- The integer nearest to an unpacked value, halves away from zero; zero where there is no such integer. -/
def nearestInteger : UnpackedFloat → Int
  | .finite sign mantissa exponent _ => sign.apply (nearestMagnitude mantissa exponent)
  | _ => 0

/-- Rounds to an integral value, halves away from zero, and keeps the sign of a zero. -/
def roundIntegral (value : Float32) : Float32 :=
  match value.toModel.unpack with
  | .finite sign mantissa exponent _ =>
    match nearestMagnitude mantissa exponent with
    | 0 => round (.zero sign)
    | count + 1 => round (.finite sign (count + 1) 0 count.succ_pos)
  | _ => value

/-- The larger number; a NaN gives way to the other operand. -/
def maximum (left right : Float32) : Float32 :=
  if left.isNaN then right else if left < right then right else left

/-- The smaller number; a NaN gives way to the other operand. -/
def minimum (left right : Float32) : Float32 :=
  if left.isNaN then right else if right < left then right else left

/-- Moves a value into `[low, high]`; a NaN stays. -/
def clamp (value low high : Float32) : Float32 :=
  if value < low then low else if high < value then high else value

def finiteOr (value fallback : Float32) : Float32 :=
  if value.isFinite then value else fallback

/-- Clamps a finite value; anything else becomes the lower bound. -/
def clampOrLow (value low high : Float32) : Float32 :=
  if value.isFinite then clamp value low high else low

/-- Clamps a finite value to `[0, 1]`; anything else becomes the fallback. -/
def unitOr (value fallback : Float32) : Float32 :=
  if value.isFinite then clamp value 0 1 else fallback

def clampUnit (value : Float32) : Float32 :=
  clampOrLow value 0 1

/-- Left-to-right sum. The empty sum is `-0`, the neutral element of rounded addition. -/
def sum (values : List Float32) : Float32 :=
  values.foldl (· + ·) negativeZero

def ofNat (count : Nat) : Float32 :=
  .ofScientific count false 0

end EpisodicReplay.Binary32
