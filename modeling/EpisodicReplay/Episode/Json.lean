import EpisodicReplay.Episode
import EpisodicReplay.Json.Fields
import EpisodicReplay.Json.Writer

/-! Ticks, tags and episodes as JSON. -/

namespace EpisodicReplay
open Json (Value)

def Tick.names : List String :=
  ["amp", "tempo", "consent", "influence", "harmony", "dream", "filter_delta", "filter_alpha"]

def Tick.ofJson? (json : Value) : Option Tick := do
  let fields ← json.fields? names
  ofValues? (← names.mapM (Json.required? fields · Value.float32?))

def Tick.toJson (tick : Tick) : List Char :=
  Json.writeObject (names.zip (tick.values.map Json.writeFloat32))

def Tag.ofJson? (json : Value) : Option Tag :=
  json.uint32?.map Tag.mk

def Tag.toJson (tag : Tag) : List Char :=
  Json.writeNat tag.bits.toNat

/-- Takes the ticks as they are: nothing is sanitized or cut off. -/
def Episode.ofJson? (json : Value) : Option Episode := do
  let fields ← json.fields? ["ticks", "tag"]
  return ⟨(← Json.required? fields "ticks" (Value.array? Tick.ofJson?)).toArray,
    ← Json.required? fields "tag" Tag.ofJson?⟩

def Episode.toJson (episode : Episode) : List Char :=
  Json.writeObject [("ticks", Json.writeArray (episode.ticks.toList.map Tick.toJson)), ("tag", episode.tag.toJson)]

end EpisodicReplay
