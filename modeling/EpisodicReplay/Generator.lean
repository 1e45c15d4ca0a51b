/-! A seeded generator, so that a search is a function of its seed. -/

namespace EpisodicReplay

structure Generator where
  state : UInt64
deriving DecidableEq, Repr

namespace Generator

/-- The state zero would never change, so the seed zero stands for another one. -/
def ofSeed (seed : UInt64) : Generator :=
  ⟨if seed = 0 then 0x9E3779B97F4A7C15 else seed⟩

/-- Three shifts and exclusive ors, each of them invertible. -/
def advance (state : UInt64) : UInt64 :=
  let first := state ^^^ (state >>> 12)
  let second := first ^^^ (first <<< 25)
  second ^^^ (second >>> 27)

def next (generator : Generator) : UInt64 × Generator :=
  let state := advance generator.state
  (state * 0x2545F4914F6CDD1D, ⟨state⟩)

/-- A uniform draw from the multiples of `2 ^ -24` in `[0, 1)`. -/
def unit (generator : Generator) : Float32 × Generator :=
  let (word, next) := generator.next
  ((word >>> 40).toUInt32.toFloat32 / 16777216, next)

/-- A uniform draw from `[-1, 1)`. -/
def signed (generator : Generator) : Float32 × Generator :=
  let (value, next) := generator.unit
  (value * 2 - 1, next)

def range (generator : Generator) (low high : Float32) : Float32 × Generator :=
  let (value, next) := generator.unit
  (low + (high - low) * value, next)

end Generator

end EpisodicReplay
