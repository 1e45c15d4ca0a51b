import EpisodicReplay.Decimal.Digits
import EpisodicReplay.Failure
import EpisodicReplay.Store.Index

/-! Which episodes a replay or a tuning run works on. -/

namespace EpisodicReplay

inductive Selector where
  | latest
  | id (value : UInt32)
  | tag (mask : Tag)
  | all
deriving DecidableEq, Repr

namespace Selector

instance : Inhabited Selector := ⟨latest⟩

/-- The text form. -/
def label : Selector → String
  | .latest => "latest"
  | .id value => "idx:" ++ String.ofList (Decimal.digits value.toNat)
  | .tag mask => if mask.isEmpty then "tag:0" else "tag:" ++ mask.label
  | .all => "ALL"

/-- Reads trimmed text. A tag selector has to name a tag. -/
def ofTrimmed? (chars : List Char) : Option Selector :=
  if Text.equalsIgnoringCase "latest" chars then some latest
  else if Text.equalsIgnoringCase "all" chars then some all
  else match Text.dropLeading? "idx:" chars with
    | some digits => (Decimal.readUInt32? (Text.trim digits)).map id
    | none => match Text.dropLeading? "tag:" chars with
      | some words =>
        let mask := Tag.ofWords words
        if mask.isEmpty then none else some (tag mask)
      | none => none

def parse (text : String) : Except Failure Selector :=
  let trimmed := Text.trim text.toList
  match ofTrimmed? trimmed with
  | some selector => .ok selector
  | none => .error (.unknownSelector (.ofList trimmed))

def parse? (text : String) : Option Selector :=
  (parse text).toOption

/-- The greatest id of an index. -/
def latestId? (records : List IndexRecord) : Option UInt32 :=
  (records.map IndexRecord.id).max?

/-- The ids of the matching records, in the order of the index. -/
def select (selector : Selector) (records : List IndexRecord) : List UInt32 :=
  match selector with
  | .latest => (latestId? records).toList
  | .id value => ((records.find? (·.id == value)).map IndexRecord.id).toList
  | .tag mask => (records.filter (·.tag.intersects mask)).map IndexRecord.id
  | .all => records.map IndexRecord.id

/-- The first matches up to a count, where zero means all. The latest episode stands in for no match. -/
def selectForTuning (selector : Selector) (records : List IndexRecord) (count : Nat) : List UInt32 :=
  let matching := selector.select records
  let chosen := if matching.isEmpty then (latestId? records).toList else matching
  if count = 0 then chosen else chosen.take count

def toJson (selector : Selector) : List Char :=
  Json.writeString selector.label

def ofJson? (json : Json.Value) : Option Selector :=
  json.string?.bind fun text => parse? (.ofList text)

end Selector

end EpisodicReplay
