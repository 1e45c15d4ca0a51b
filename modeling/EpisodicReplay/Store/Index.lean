import EpisodicReplay.Episode.Json
import EpisodicReplay.Text.Lines

/-! Summaries of episodes, one JSON line each. -/

namespace EpisodicReplay

structure IndexRecord where
  id : UInt32
  length : Nat
  label : String
  tag : Tag
  deltaMax : Float32
  alphaMean : Float32
deriving DecidableEq

namespace IndexRecord
open Json (Value)

def ofEpisode (id : UInt32) (episode : Episode) : IndexRecord where
  id := id
  length := episode.length
  label := episode.tag.label
  tag := episode.tag
  deltaMax := episode.deltaMax
  alphaMean := episode.alphaMean

def toJson (record : IndexRecord) : List Char :=
  Json.writeObject [
    ("idx", Json.writeNat record.id.toNat),
    ("len", Json.writeNat record.length),
    ("tag", Json.writeString record.label),
    ("tag_mask", record.tag.toJson),
    ("delta_max", Json.writeFloat32 record.deltaMax),
    ("alpha_mean", Json.writeFloat32 record.alphaMean)]

/-- A record without its mean is one with the mean zero. -/
def ofJson? (json : Value) : Option IndexRecord := do
  let fields ← json.fields? ["idx", "len", "tag", "tag_mask", "delta_max", "alpha_mean"]
  return {
    id := ← Json.required? fields "idx" Value.uint32?
    length := ← Json.required? fields "len" Value.count?
    label := String.ofList (← Json.required? fields "tag" Value.string?)
    tag := ← Json.required? fields "tag_mask" Tag.ofJson?
    deltaMax := ← Json.required? fields "delta_max" Value.float32?
    alphaMean := ← Json.optional? fields "alpha_mean" Value.float32? 0 }

def line (record : IndexRecord) : String :=
  .ofList record.toJson

def ofLine? (line : String) : Option IndexRecord :=
  (Json.parse? line.toList).bind ofJson?

end IndexRecord

namespace Index
open Json (Value)

/-- The id of a line, whatever else stands in it. -/
def idOfLine? (line : String) : Option UInt32 := do
  let fields ← (← Json.parse? line.toList).fields? ["idx"]
  Json.required? fields "idx" Value.uint32?

/-- The lines up to the first that is not text. -/
def textLines (content : ByteArray) : List String :=
  (((Text.lines content).map Text.decode?).takeWhile Option.isSome).filterMap id

/-- The readable records in their order. -/
def readRecords (content : ByteArray) : List IndexRecord :=
  (textLines content).filterMap IndexRecord.ofLine?

def readIds (content : ByteArray) : List UInt32 :=
  (textLines content).filterMap idOfLine?

end Index

end EpisodicReplay
