import EpisodicReplay.Episode
import EpisodicReplay.History

/-! A state machine that freezes a window of ticks round each accepted trigger. -/

namespace EpisodicReplay

/-- How many ticks before and after a trigger belong to its episode. -/
structure Window where
  before : Nat
  after : Nat
deriving DecidableEq, Repr

/-- Makes a window fit an episode together with the trigger's own tick. The part after the trigger gives way
before the part in front of it. -/
def Window.fitted (window : Window) : Window :=
  let limit := Episode.maxLength - 1
  let before := min window.before limit
  let after := min window.after limit
  let overflow := before + after + 1 - Episode.maxLength
  ⟨before - (overflow - after), after - overflow⟩

inductive CaptureState where
  | idle
  | capturing (episode : Episode) (remaining : Nat) (lastSequence : Nat)

structure Capture where
  window : Window
  debounce : Nat
  state : CaptureState

namespace Capture
variable {capacity : Nat}

def ofWindow (window : Window) : Capture :=
  ⟨window.fitted, 0, .idle⟩

def isCapturing (capture : Capture) : Bool :=
  match capture.state with
  | .idle => false
  | .capturing .. => true

/-- How many ticks the active capture still waits for. -/
def remaining? (capture : Capture) : Option Nat :=
  match capture.state with
  | .idle => none
  | .capturing _ remaining _ => some remaining

/-- Ends a capture. New triggers wait for as many cycles as the window has after its trigger. -/
def finish (capture : Capture) (episode : Episode) : Option Episode × Capture :=
  (some episode, { capture with debounce := capture.window.after, state := .idle })

/-- The newest ticks up to a number, oldest first. -/
def seed (history : History capacity) (tag : Tag) (count : Nat) : Episode × Nat :=
  ((List.range (count + 1)).reverse.filterMap history.recent?).foldl
    (fun (episode, lastSequence) entry =>
      let (accepted, extended) := episode.push entry.tick
      (extended, if accepted then entry.sequence else lastSequence))
    (.empty tag, 0)

/-- Begins a capture with the newest ticks. Without a tick there is nothing to capture. -/
def begin (capture : Capture) (history : History capacity) (tag : Tag) : Option Episode × Capture :=
  if history.isEmpty then (none, capture)
  else
    let (episode, lastSequence) := seed history tag (min capture.window.before (history.size - 1))
    if capture.window.after = 0 then capture.finish episode
    else (none, { capture with state := .capturing episode capture.window.after lastSequence })

/-- Appends entries until the window or the episode is full; tells whether it is. -/
def drain (episode : Episode) (remaining lastSequence : Nat) : List History.Entry → Bool × CaptureState
  | [] => (false, .capturing episode remaining lastSequence)
  | entry :: rest =>
    let extended := (episode.push entry.tick).2
    if remaining - 1 = 0 || extended.isFull then (true, .capturing extended (remaining - 1) entry.sequence)
    else drain extended (remaining - 1) entry.sequence rest

/-- Takes in what the history has gained since the last step. -/
def progress (capture : Capture) (history : History capacity) : Option Episode × Capture :=
  match capture.state with
  | .idle => (none, capture)
  | .capturing episode remaining lastSequence =>
    match drain episode remaining lastSequence (history.entriesAfter lastSequence) with
    | (true, .capturing episode _ _) => capture.finish episode
    | (_, state) => (none, { capture with state })

/-- A tag that arrives during a capture joins the tag of its episode. -/
def addTag (capture : Capture) (tag : Tag) : Capture :=
  match capture.state with
  | .idle => capture
  | .capturing episode remaining lastSequence =>
    { capture with state := .capturing (episode.setTag (episode.tag ||| tag)) remaining lastSequence }

/-- One control cycle, after its tick has been pushed. Returns an episode that the cycle completed. -/
def step (capture : Capture) (history : History capacity) (tag : Tag) : Option Episode × Capture :=
  let waiting := { capture with debounce := capture.debounce - 1 }
  let (finished, advanced) := (waiting.addTag tag).progress history
  if !tag.isEmpty && !advanced.isCapturing && advanced.debounce = 0 then
    let (started, next) := advanced.begin history tag
    (started <|> finished, next)
  else (finished, advanced)

end Capture

end EpisodicReplay
