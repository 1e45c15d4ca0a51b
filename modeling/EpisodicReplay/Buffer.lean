import EpisodicReplay.Capture
import EpisodicReplay.Store

/-! History, capture and store of one control loop. -/

namespace EpisodicReplay

/-- In each cycle its tick is pushed first and its tag is stepped afterwards. -/
structure Buffer (historyCapacity storeCapacity : Nat) where
  history : History historyCapacity
  capture : Capture
  store : Store storeCapacity

namespace Buffer
variable {historyCapacity storeCapacity : Nat}

def ofStore (capacity_pos : 0 < historyCapacity) (window : Window) (store : Store storeCapacity) :
    Buffer historyCapacity storeCapacity :=
  ⟨.empty capacity_pos, .ofWindow window, store⟩

def push (buffer : Buffer historyCapacity storeCapacity) (tick : Tick) : Buffer historyCapacity storeCapacity :=
  { buffer with history := buffer.history.push tick }

/-- Steps the capture and finalizes the episode that it completes. Returns the id of that episode. -/
def step (buffer : Buffer historyCapacity storeCapacity) (tag : Tag) :
    StateM Files (Option UInt32 × Buffer historyCapacity storeCapacity) := do
  match buffer.capture.step buffer.history tag with
  | (none, capture) => return (none, { buffer with capture })
  | (some episode, capture) =>
    let (id?, store) ← buffer.store.finalize episode
    return (id?, { buffer with capture, store })

/-- A whole cycle. -/
def cycle (buffer : Buffer historyCapacity storeCapacity) (tick : Tick) (tag : Tag) :
    StateM Files (Option UInt32 × Buffer historyCapacity storeCapacity) :=
  (buffer.push tick).step tag

end Buffer

end EpisodicReplay
