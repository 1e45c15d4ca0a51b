/-! Natural numbers as decimal digits. -/

namespace EpisodicReplay.Decimal

/-- The digits of a number, most significant first, with no leading zero. -/
def digits (number : Nat) : List Char :=
  if number < 10 then [number.digitChar] else digits (number / 10) ++ [(number % 10).digitChar]

/-- The digits of a number, filled with zeros on the left. -/
def paddedDigits (width number : Nat) : List Char :=
  (digits number).leftpad width '0'

def digit? (char : Char) : Option Nat :=
  if '0' ≤ char ∧ char ≤ '9' then some (char.toNat - '0'.toNat) else none

def isDigit (char : Char) : Bool :=
  (digit? char).isSome

/-- The value of a run of digits; the empty run is zero. -/
def digitsValue? (chars : List Char) : Option Nat :=
  chars.foldlM (fun value char => (digit? char).map (10 * value + ·)) 0

/-- Reads one or more digits after an optional plus sign, and refuses a value at or above the bound. -/
def readBelow? (bound : Nat) (chars : List Char) : Option Nat :=
  let unsigned := match chars with
    | '+' :: rest => rest
    | _ => chars
  if unsigned.isEmpty then none else (digitsValue? unsigned).filter (· < bound)

def readUInt32? (chars : List Char) : Option UInt32 :=
  (readBelow? UInt32.size chars).map .ofNat

def readUInt64? (chars : List Char) : Option UInt64 :=
  (readBelow? UInt64.size chars).map .ofNat

/-- Reads a count; counts stay below `2 ^ 64`. -/
def readCount? (chars : List Char) : Option Nat :=
  readBelow? UInt64.size chars

end EpisodicReplay.Decimal
