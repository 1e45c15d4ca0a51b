import EpisodicReplay.Json.Reader

/-! Reading records with known fields out of JSON values. -/

namespace EpisodicReplay.Json.Value

def float32? : Value → Option Float32
  | .number spelling => spelling.value?.map NumberValue.toFloat32
  | _ => none

/-- An exact non-negative integer below a bound of at most `2 ^ 64`. -/
def natBelow? (bound : Nat) : Value → Option Nat
  | .number spelling =>
    match spelling.value? with
    | some (.natural value) => if value.toNat < bound then some value.toNat else none
    | _ => none
  | _ => none

def uint32? (value : Value) : Option UInt32 :=
  (value.natBelow? UInt32.size).map .ofNat

def uint64? (value : Value) : Option UInt64 :=
  (value.natBelow? UInt64.size).map .ofNat

/-- Counts stay below `2 ^ 64`. -/
def count? (value : Value) : Option Nat :=
  value.natBelow? UInt64.size

def string? : Value → Option (List Char)
  | .string pieces => text? pieces
  | _ => none

def array? (read? : Value → Option α) : Value → Option (List α)
  | .array items => items.mapM read?
  | _ => none

/-- The members with known names. A record is an object, which may hold other members but none of the known
ones twice, or an array of the members in their order, where some may be missing at the end. -/
def fields? (names : List String) : Value → Option (List (String × Value))
  | .object members => do
    let named ← members.mapM fun (key, value) => (text? key).map fun key => (String.ofList key, value)
    let known := named.filter fun member => names.contains member.1
    if names.all fun name => known.countP (·.1 == name) ≤ 1 then some known else none
  | .array items => if items.length ≤ names.length then some (names.zip items) else none
  | _ => none

end EpisodicReplay.Json.Value

namespace EpisodicReplay.Json

def required? (fields : List (String × Value)) (name : String) (read? : Value → Option α) : Option α :=
  (fields.lookup name).bind read?

/-- A missing field takes its default; a field that is there has to be readable. -/
def optional? (fields : List (String × Value)) (name : String) (read? : Value → Option α)
    (default : α) : Option α :=
  match fields.lookup name with
  | none => some default
  | some value => read? value

end EpisodicReplay.Json
