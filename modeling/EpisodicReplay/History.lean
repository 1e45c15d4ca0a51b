import EpisodicReplay.Ring
import EpisodicReplay.Tick

/-! The newest ticks with their sequence numbers. -/

namespace EpisodicReplay

structure History.Entry where
  tick : Tick
  sequence : Nat
deriving DecidableEq

/-- Sequence numbers count from one; zero stands for nothing seen yet. The numbers are those of a 64-bit counter as long
as fewer than `2 ^ 64` ticks are pushed. -/
structure History (capacity : Nat) where
  entries : Ring History.Entry capacity
  lastSequence : Nat

namespace History
variable {capacity : Nat}

def standardCapacity : Nat := 256

def empty (capacity_pos : 0 < capacity) : History capacity :=
  ⟨.empty capacity_pos, 0⟩

def ofCapacity (capacity : Nat) : Except RingFault (History capacity) :=
  (Ring.ofCapacity Entry capacity).map (⟨·, 0⟩)

def size (history : History capacity) : Nat :=
  history.entries.size

def isEmpty (history : History capacity) : Bool :=
  history.entries.isEmpty

def recent? (history : History capacity) (offset : Nat) : Option Entry :=
  history.entries.recent? offset

/-- Takes in a tick, sanitized against the one before it. -/
def push (history : History capacity) (tick : Tick) : History capacity :=
  let sanitized := tick.sanitized (history.entries.newest?.map Entry.tick)
  let sequence := history.lastSequence + 1
  ⟨(history.entries.push ⟨sanitized, sequence⟩).2, sequence⟩

/-- The entries that are newer than a sequence number, oldest first. -/
def entriesAfter (history : History capacity) (sequence : Nat) : List Entry :=
  history.entries.toList.filter (sequence < ·.sequence)

end History

end EpisodicReplay
