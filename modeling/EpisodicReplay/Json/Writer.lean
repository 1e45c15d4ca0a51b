import EpisodicReplay.Decimal.Shortest

/-! JSON text without blanks. -/

namespace EpisodicReplay.Json

def writeNat (number : Nat) : List Char :=
  Decimal.digits number

/-- Positional notation runs from `10 ^ -6` to just below `10 ^ 13`. -/
def writeMagnitude (number : Decimal.Scaled) : List Char :=
  let leading := number.exponent + (Decimal.digitCount number.significand : Int) - 1
  if leading < -6 ∨ 12 < leading then number.scientific
  else if number.exponent < 0 then number.positional
  else number.positional ++ ".0".toList

/-- The shortest decimal that reads back, with a half to the even neighbour. What is not finite has no number and
is null. -/
def writeFloat32 (value : Float32) : List Char :=
  match value.toModel.unpack with
  | .notANumber => "null".toList
  | .infinity _ => "null".toList
  | .zero sign => Decimal.signText sign ++ "0.0".toList
  | .finite sign mantissa exponent _ =>
    Decimal.signText sign ++ writeMagnitude (Decimal.shortest .even mantissa exponent)

/-- Quotes, backslashes and control characters are escaped; everything else stands for itself. -/
def escape (char : Char) : List Char :=
  match char with
  | '"' => ['\\', '"']
  | '\\' => ['\\', '\\']
  | '\n' => ['\\', 'n']
  | '\r' => ['\\', 'r']
  | '\t' => ['\\', 't']
  | '\x08' => ['\\', 'b']
  | '\x0c' => ['\\', 'f']
  | _ =>
    if char < ' ' then ['\\', 'u', '0', '0', (char.toNat / 16).digitChar, (char.toNat % 16).digitChar]
    else [char]

def writeString (text : String) : List Char :=
  '"' :: text.toList.flatMap escape ++ ['"']

/-- Members that are already text, in their order. -/
def writeObject (members : List (String × List Char)) : List Char :=
  '\x7b' :: [','].intercalate (members.map fun (name, text) => writeString name ++ ':' :: text) ++ ['\x7d']

def writeArray (items : List (List Char)) : List Char :=
  '[' :: [','].intercalate items ++ [']']

end EpisodicReplay.Json
