import EpisodicReplay.Json.Number

/-! JSON values as they are spelled, so that what is skipped need not be decoded. -/

namespace EpisodicReplay.Json

/-- Part of a spelled string: a character, or one 16-bit unit given by its code. -/
inductive Piece where
  | char (value : Char)
  | unit (code : Nat)
deriving Repr, DecidableEq

/-- The text that pieces spell. A surrogate unit without its partner spells nothing. -/
def text? : List Piece → Option (List Char)
  | [] => some []
  | .char value :: rest => (text? rest).map (value :: ·)
  | .unit high :: rest =>
    if 0xd800 ≤ high ∧ high < 0xdc00 then
      match rest with
      | .unit low :: others =>
        if 0xdc00 ≤ low ∧ low < 0xe000 then
          (text? others).map (Char.ofNat (0x10000 + (high - 0xd800) * 0x400 + (low - 0xdc00)) :: ·)
        else none
      | _ => none
    else if 0xdc00 ≤ high ∧ high < 0xe000 then none
    else (text? rest).map (Char.ofNat high :: ·)

inductive Value where
  | null
  | boolean (value : Bool)
  | number (spelling : Number)
  | string (pieces : List Piece)
  | array (items : List Value)
  | object (members : List (List Piece × Value))
deriving Inhabited

/-- Nesting at most as deep as allowed, every string decodable, every number in range. -/
def Value.isDecodable : Nat → Value → Bool
  | _, .null => true
  | _, .boolean _ => true
  | _, .number spelling => spelling.value?.isSome
  | _, .string pieces => (text? pieces).isSome
  | 0, .array _ => false
  | 0, .object _ => false
  | depth + 1, .array items => items.all (isDecodable depth)
  | depth + 1, .object members => members.all fun (key, value) => (text? key).isSome && isDecodable depth value

end EpisodicReplay.Json
