import EpisodicReplay.Proofs.Capture.Step
import EpisodicReplay.Proofs.Tag

/-! A capture under way, and the window of entries that it follows. -/

namespace EpisodicReplay

/-- The tick that has a sequence number. -/
def History.tickNumbered (entries : List History.Entry) (sequence : Nat) : Option Tick :=
  (entries.find? (·.sequence == sequence)).map Entry.tick

theorem History.Holds.tickNumbered {capacity : Nat} {history : History capacity} {entries : List Entry}
    (holds : history.Holds entries) (index : Nat) :
    History.tickNumbered entries (index + 1) = entries[index]?.map Entry.tick := by
  rw [History.tickNumbered]
  congr 1
  rcases Nat.lt_or_ge index entries.length with inside | outside
  · rw [List.getElem?_eq_getElem inside, List.find?_eq_some_iff_getElem]
    refine ⟨by simp [holds.sequence_getElem], index, inside, rfl, fun earlier before => ?_⟩
    rw [holds.sequence_getElem earlier (by omega)]
    simp
    omega
  · rw [List.getElem?_eq_none outside, List.find?_eq_none]
    intro entry member
    obtain ⟨position, below, rfl⟩ := List.getElem_of_mem member
    rw [holds.sequence_getElem]
    simp
    omega

/-- The episode of the entries from one position up to another. -/
def Episode.cut (entries : List History.Entry) (first stop : Nat) (tag : Tag) : Episode :=
  (Episode.empty tag).extend (((entries.drop first).take (stop - first)).map History.Entry.tick)

namespace Episode
variable {entries : List History.Entry} {first seen stop : Nat} {tag : Tag}

theorem cut_length (inside : stop ≤ entries.length) : (cut entries first stop tag).length = stop - first := by
  rw [cut, extend_length, empty_length, List.length_map, List.length_take, List.length_drop]
  omega

theorem cut_append (inside : stop ≤ entries.length) (more : List History.Entry) :
    cut (entries ++ more) first stop tag = cut entries first stop tag := by
  rw [cut, cut, List.drop_append, List.take_append_of_le_length]
  rw [List.length_drop]
  omega

theorem cut_extend (ordered : first ≤ seen) (later : seen ≤ stop) :
    (cut entries first seen tag).extend (((entries.drop seen).take (stop - seen)).map History.Entry.tick) =
      cut entries first stop tag := by
  rw [cut, extend_extend, cut, ← List.map_append]
  congr 2
  have joined := List.take_add (l := entries.drop first) (i := seen - first) (j := stop - seen)
  rw [List.drop_drop, show first + (seen - first) = seen by omega,
    show seen - first + (stop - seen) = stop - first by omega] at joined
  exact joined.symm

/-- The ticks of a cut are those with the sequence numbers of its positions, in order. -/
theorem cut_ticks {capacity : Nat} {history : History capacity} (holds : history.Holds entries)
    (inside : stop ≤ entries.length) :
    (cut entries first stop tag).ticks.toList.map some =
      (List.range' (first + 1) (stop - first)).map (History.tickNumbered entries) := by
  apply List.ext_getElem
  · simp [cut, extend, empty]
    omega
  intro index left right
  rw [List.length_map, List.length_range'] at right
  rw [List.getElem_map, List.getElem_map, List.getElem_range', Nat.one_mul, Nat.add_right_comm, holds.tickNumbered,
    List.getElem?_eq_getElem (by omega)]
  simp [cut, extend, empty]

end Episode

/-- A capture under way: it has the entries from one position up to another and waits for those up to a third. -/
structure Capture.Follows (capture : Capture) (entries : List History.Entry) (first seen stop : Nat) (tag : Tag) :
    Prop where
  state : capture.state = .capturing (.cut entries first seen tag) (stop - seen) seen
  window : capture.window.after ≠ 0
  ordered : first ≤ seen
  known : seen ≤ entries.length
  waits : seen < stop
  fits : stop ≤ first + Episode.maxLength

namespace Capture.Follows
variable {capacity : Nat} {capture : Capture} {history : History capacity} {entries : List History.Entry}
  {first seen stop : Nat} {tag : Tag}

theorem isCapturing (follows : capture.Follows entries first seen stop tag) : capture.isCapturing = true := by
  rw [Capture.isCapturing, follows.state]

theorem append (follows : capture.Follows entries first seen stop tag) (more : List History.Entry) :
    capture.Follows (entries ++ more) first seen stop tag :=
  { follows with
    state := by rw [follows.state, Episode.cut_append follows.known]
    known := by
      have := follows.known
      rw [List.length_append]
      omega }

/-- No push of a step finds the episode full. -/
theorem takesAll (follows : capture.Follows entries first seen stop tag) (holds : history.Holds entries)
    {episode : Episode} {remaining lastSequence : Nat}
    (state : capture.state = .capturing episode remaining lastSequence) :
    episode.TakesAll (((history.entriesAfter lastSequence).take remaining).map History.Entry.tick) := by
  rw [follows.state] at state
  obtain ⟨rfl, rfl, rfl⟩ := CaptureState.capturing.inj state
  apply Episode.takesAll_of_room
  · have := follows.fits
    have := follows.waits
    have := follows.ordered
    rw [Episode.cut_length follows.known, List.length_map, List.length_take]
    omega
  · intro tick member
    obtain ⟨entry, among, rfl⟩ := List.mem_map.mp member
    refine holds.finite entry ?_
    have kept := List.mem_of_mem_filter (List.mem_of_mem_take among)
    rw [holds.contents] at kept
    exact List.mem_of_mem_drop kept

/-- A step takes in what is new, and does not go beyond the end of the window. -/
theorem advanced (follows : capture.Follows entries first seen stop tag) (holds : history.Holds entries)
    (kept : entries.length ≤ seen + capacity) (newer : Tag) :
    if entries.length < stop then
      (capture.advanced history newer).1 = none ∧
        (capture.advanced history newer).2.Follows entries first entries.length stop (tag ||| newer)
    else
      (capture.advanced history newer).1 = some (.cut entries first stop (tag ||| newer)) ∧
        (capture.advanced history newer).2.isCapturing = false := by
  have after := holds.entriesAfter kept
  have finite : ∀ entry ∈ entries.drop seen, entry.tick.isFinite := fun entry member =>
    holds.finite entry (List.mem_of_mem_drop member)
  have ordered := follows.ordered
  have waits := follows.waits
  have known := follows.known
  have tagged : (Episode.cut entries first seen tag).setTag ((Episode.cut entries first seen tag).tag ||| newer) =
      Episode.cut entries first seen (tag ||| newer) := rfl
  have room : (Episode.cut entries first seen (tag ||| newer)).length + (stop - seen) ≤ Episode.maxLength := by
    have := follows.fits
    rw [Episode.cut_length known]
    omega
  have length : (entries.drop seen).length = entries.length - seen := List.length_drop
  split
  case isTrue short =>
    have drained := drain_of_lt seen room finite (by omega)
    have whole : (entries.drop seen).map History.Entry.tick =
        ((entries.drop seen).take (entries.length - seen)).map History.Entry.tick := by
      rw [List.take_of_length_le (by omega)]
    have newest : ((entries.drop seen).getLast?.map History.Entry.sequence).getD seen = entries.length := by
      rw [List.getLast?_drop]
      split
      case isTrue none => simp; omega
      case isFalse some =>
        rw [List.getLast?_eq_getElem?, List.getElem?_eq_getElem (by omega), Option.map_some, Option.getD_some,
          holds.sequence_getElem]
        omega
    rw [whole, Episode.cut_extend ordered known, newest, length, show stop - seen - (entries.length - seen) =
      stop - entries.length by omega] at drained
    simp only [Capture.advanced, progress, addTag, follows.state, tagged, after, drained, true_and]
    exact ⟨rfl, follows.window, by omega, Nat.le_refl _, short, follows.fits⟩
  case isFalse enough =>
    obtain ⟨sequence, drained⟩ := drain_of_le seen (by omega) room finite (by omega)
    rw [Episode.cut_extend ordered (by omega)] at drained
    simp only [Capture.advanced, progress, addTag, follows.state, tagged, after, drained]
    exact ⟨rfl, rfl⟩

/-- A capture under way begins no other one. -/
theorem step (follows : capture.Follows entries first seen stop tag) (holds : history.Holds entries)
    (kept : entries.length ≤ seen + capacity) (newer : Tag) :
    if entries.length < stop then
      (capture.step history newer).1 = none ∧
        (capture.step history newer).2.Follows entries first entries.length stop (tag ||| newer)
    else (capture.step history newer).1 = some (.cut entries first stop (tag ||| newer)) := by
  have taken := follows.advanced holds kept newer
  have refused : capture.accepts history newer = false := by
    rw [accepts]
    split at taken
    case isTrue => simp [taken.2.isCapturing]
    case isFalse => simp [debounce_of_finished taken.1, follows.window]
  rw [step_of_not_accepts refused]
  split at taken
  case isTrue short => rwa [if_pos short]
  case isFalse enough =>
    rw [if_neg enough]
    exact taken.1

end Capture.Follows

end EpisodicReplay
