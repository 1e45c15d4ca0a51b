import EpisodicReplay.Tag
import EpisodicReplay.Tick

/-! Bounded runs of ticks captured round a trigger. -/

namespace EpisodicReplay

structure Episode where
  ticks : Array Tick
  tag : Tag
deriving DecidableEq

/-- A finished episode with the number that it keeps. -/
structure EpisodeRecord where
  id : UInt32
  episode : Episode
deriving DecidableEq

namespace Episode

def maxLength : Nat := 128

def empty (tag : Tag) : Episode :=
  ⟨#[], tag⟩

instance : Inhabited Episode := ⟨empty .none⟩

def length (episode : Episode) : Nat :=
  episode.ticks.size

def isEmpty (episode : Episode) : Bool :=
  episode.ticks.isEmpty

def isFull (episode : Episode) : Bool :=
  maxLength ≤ episode.length

/-- Adds a tick, sanitized against the one before it. A full episode refuses it. -/
def push (episode : Episode) (tick : Tick) : Bool × Episode :=
  if episode.isFull then (false, episode)
  else (true, { episode with ticks := episode.ticks.push (tick.sanitized episode.ticks.back?) })

/-- The episode of the first ticks that fit. -/
def ofTicks (ticks : List Tick) (tag : Tag) : Episode :=
  ticks.foldl (fun episode tick => (episode.push tick).2) (empty tag)

def setTag (episode : Episode) (tag : Tag) : Episode :=
  { episode with tag }

/-- The largest filter delta by magnitude. -/
def deltaMax (episode : Episode) : Float32 :=
  episode.ticks.toList.foldl (fun largest tick => Binary32.maximum largest tick.filterDelta.abs) 0

def alphaMean (episode : Episode) : Float32 :=
  if episode.isEmpty then 0
  else Binary32.sum (episode.ticks.toList.map Tick.filterAlpha) / Binary32.ofNat episode.length

end Episode

end EpisodicReplay
