import EpisodicReplay.Capture
import EpisodicReplay.Proofs.History

/-! What one step of a capture takes from a history that still has all it needs. -/

namespace EpisodicReplay

theorem Window.fitted_length (window : Window) :
    window.fitted.before + 1 + window.fitted.after ≤ Episode.maxLength := by
  simp only [fitted, Episode.maxLength]
  omega

namespace Capture
variable {capacity : Nat} {capture : Capture} {history : History capacity} {entries : List History.Entry} {tag : Tag}

/-- The part of a step before a new capture may begin. -/
def advanced (capture : Capture) (history : History capacity) (tag : Tag) : Option Episode × Capture :=
  ({ capture with debounce := capture.debounce - 1 }.addTag tag).progress history

/-- Whether a step begins a new capture. -/
def accepts (capture : Capture) (history : History capacity) (tag : Tag) : Bool :=
  !tag.isEmpty && !(capture.advanced history tag).2.isCapturing && (capture.advanced history tag).2.debounce = 0 &&
    !history.isEmpty

theorem step_eq : capture.step history tag =
    if !tag.isEmpty && !(capture.advanced history tag).2.isCapturing && (capture.advanced history tag).2.debounce = 0
    then ((((capture.advanced history tag).2.begin history tag).1 <|> (capture.advanced history tag).1),
      ((capture.advanced history tag).2.begin history tag).2)
    else capture.advanced history tag := rfl

theorem step_of_accepts (accepted : capture.accepts history tag) :
    capture.step history tag =
      ((((capture.advanced history tag).2.begin history tag).1 <|> (capture.advanced history tag).1),
        ((capture.advanced history tag).2.begin history tag).2) := by
  rw [accepts, Bool.and_eq_true] at accepted
  rw [step_eq, if_pos accepted.1]

theorem step_of_not_accepts (refused : capture.accepts history tag = false) :
    capture.step history tag = capture.advanced history tag := by
  rw [accepts, Bool.and_eq_false_iff] at refused
  rw [step_eq]
  split
  case isTrue ready =>
    have empty : history.isEmpty = true := by
      rcases refused with refused | refused
      · rw [refused] at ready
        contradiction
      · simpa using refused
    simp [begin, empty]
  case isFalse => rfl

/-- An episode that a step takes over from the capture before it leaves a debounce of the whole window after. -/
theorem debounce_of_finished {episode : Episode} (finished : (capture.advanced history tag).1 = some episode) :
    (capture.advanced history tag).2.debounce = capture.window.after := by
  revert finished
  unfold advanced progress addTag
  cases capture.state with
  | idle => simp
  | capturing running remaining lastSequence =>
      dsimp only
      split
      · intro _
        rfl
      · simp

@[simp] theorem progress_window : (capture.progress history).2.window = capture.window := by
  unfold progress
  split
  · rfl
  · split <;> rfl

@[simp] theorem addTag_window : (capture.addTag tag).window = capture.window := by
  unfold addTag
  split <;> rfl

@[simp] theorem advanced_window : (capture.advanced history tag).2.window = capture.window := by
  simp [advanced]

@[simp] theorem begin_window : (capture.begin history tag).2.window = capture.window := by
  simp only [begin]
  split
  · rfl
  · split <;> rfl

/-- No step changes the window. -/
@[simp] theorem step_window : (capture.step history tag).2.window = capture.window := by
  by_cases accepted : capture.accepts history tag
  · simp [step_of_accepts accepted]
  · simp [step_of_not_accepts (Bool.eq_false_iff.mpr accepted)]

theorem foldl_seed {entries : List History.Entry} {episode : Episode} {lastSequence : Nat}
    (room : episode.length + entries.length ≤ Episode.maxLength) (finite : ∀ entry ∈ entries, entry.tick.isFinite) :
    entries.foldl (fun (seeded : Episode × Nat) entry =>
        ((seeded.1.push entry.tick).2, if (seeded.1.push entry.tick).1 then entry.sequence else seeded.2))
        (episode, lastSequence) =
      (episode.extend (entries.map History.Entry.tick),
        (entries.getLast?.map History.Entry.sequence).getD lastSequence) := by
  induction entries generalizing episode lastSequence with
  | nil => simp
  | cons entry rest inductionHypothesis =>
      rw [List.length_cons] at room
      have inside : (episode.extend [entry.tick]).length + rest.length ≤ Episode.maxLength := by
        rw [Episode.extend_length, List.length_singleton]
        omega
      have front : episode.length < Episode.maxLength := by omega
      rw [List.foldl_cons, Episode.push_of_isFinite front (finite entry List.mem_cons_self), if_pos rfl,
        inductionHypothesis inside fun other member => finite other (List.mem_cons_of_mem entry member),
        Episode.extend_extend, List.getLast?_cons]
      cases rest.getLast? <;> rfl

/-- A seed is the newest entries, and the number of the newest one. -/
theorem seed_eq (holds : history.Holds entries) {count : Nat} (inside : count < history.size)
    (fits : count < Episode.maxLength) (tag : Tag) :
    seed history tag count =
      ((Episode.empty tag).extend ((entries.rtake (count + 1)).map History.Entry.tick), entries.length) := by
  have size := holds.size
  have length : (entries.rtake (count + 1)).length = count + 1 := by
    rw [List.rtake, List.length_drop]
    omega
  have finite : ∀ entry ∈ entries.rtake (count + 1), entry.tick.isFinite := fun entry member =>
    holds.finite entry (List.mem_of_mem_drop member)
  have room : (Episode.empty tag).length + (entries.rtake (count + 1)).length ≤ Episode.maxLength := by
    rw [length, Episode.empty_length]
    omega
  rw [seed, holds.newest inside]
  refine (foldl_seed room finite).trans ?_
  have newest : (entries.rtake (count + 1)).getLast?.map History.Entry.sequence = some entries.length := by
    rw [List.rtake, List.getLast?_drop, if_neg (by omega), List.getLast?_eq_getElem?,
      List.getElem?_eq_getElem (by omega), Option.map_some, holds.sequence_getElem]
    congr 1
    omega
  rw [newest]
  rfl

/-- A seed fits an episode. -/
theorem seed_takesAll (holds : history.Holds entries) {count : Nat} (inside : count < history.size)
    (fits : count < Episode.maxLength) (tag : Tag) :
    (Episode.empty tag).TakesAll
      (((List.range (count + 1)).reverse.filterMap history.recent?).map History.Entry.tick) := by
  have size := holds.size
  rw [holds.newest inside]
  apply Episode.takesAll_of_room
  · rw [Episode.empty_length, List.length_map, List.rtake, List.length_drop]
    omega
  · intro tick member
    obtain ⟨entry, among, rfl⟩ := List.mem_map.mp member
    exact holds.finite entry (List.mem_of_mem_drop among)

/-- A capture that begins holds the newest entries, at most as many as its window has in front of the trigger. -/
theorem begin_eq (tag : Tag) (holds : history.Holds entries) (some_entry : entries ≠ [])
    (fits : capture.window.before < Episode.maxLength) :
    capture.begin history tag =
      let episode := (Episode.empty tag).extend
        ((entries.rtake (min capture.window.before (history.size - 1) + 1)).map History.Entry.tick)
      if capture.window.after = 0 then capture.finish episode
      else (none, { capture with state := .capturing episode capture.window.after entries.length }) := by
  have size := holds.size
  have pos := history.entries.capacity_pos
  have length := List.length_pos_iff.mpr some_entry
  have nonempty : history.isEmpty = false := by
    rw [holds.isEmpty, List.isEmpty_eq_false_iff]
    exact some_entry
  have inside : min capture.window.before (history.size - 1) < history.size := by omega
  have seeded := seed_eq holds inside (by omega) tag
  simp only [begin, nonempty, seeded]
  rfl

/-- Entries complete a window once there are as many of them as it waits for. -/
theorem drain_of_le {entries : List History.Entry} {episode : Episode} {remaining : Nat} (lastSequence : Nat)
    (waits : 0 < remaining) (room : episode.length + remaining ≤ Episode.maxLength)
    (finite : ∀ entry ∈ entries, entry.tick.isFinite) (enough : remaining ≤ entries.length) :
    ∃ sequence, drain episode remaining lastSequence entries =
      (true, .capturing (episode.extend ((entries.take remaining).map History.Entry.tick)) 0 sequence) := by
  induction entries generalizing episode remaining lastSequence with
  | nil => simp at enough; omega
  | cons entry rest inductionHypothesis =>
      have entryFinite := finite entry List.mem_cons_self
      obtain ⟨left, rfl⟩ : ∃ left, remaining = left + 1 := ⟨remaining - 1, by omega⟩
      simp only [drain, Episode.push_of_isFinite (show episode.length < Episode.maxLength by omega) entryFinite,
        Nat.add_sub_cancel]
      rcases Nat.eq_zero_or_pos left with rfl | more
      · exact ⟨entry.sequence, by simp⟩
      · have open_episode : (episode.extend [entry.tick]).isFull = false := by
          apply Episode.isFull_eq_false
          rw [Episode.extend_length, List.length_singleton]
          omega
        have room : (episode.extend [entry.tick]).length + left ≤ Episode.maxLength := by
          rw [Episode.extend_length, List.length_singleton]
          omega
        obtain ⟨sequence, drained⟩ := inductionHypothesis entry.sequence more room
          (fun other member => finite other (List.mem_cons_of_mem entry member)) (Nat.le_of_succ_le_succ enough)
        refine ⟨sequence, ?_⟩
        rw [if_neg (by simp [open_episode]; omega), drained, Episode.extend_extend]
        rfl

/-- Entries that do not complete a window are all taken in. -/
theorem drain_of_lt {entries : List History.Entry} {episode : Episode} {remaining : Nat} (lastSequence : Nat)
    (room : episode.length + remaining ≤ Episode.maxLength) (finite : ∀ entry ∈ entries, entry.tick.isFinite)
    (few : entries.length < remaining) :
    drain episode remaining lastSequence entries =
      (false, .capturing (episode.extend (entries.map History.Entry.tick)) (remaining - entries.length)
        ((entries.getLast?.map History.Entry.sequence).getD lastSequence)) := by
  induction entries generalizing episode remaining lastSequence with
  | nil => simp [drain]
  | cons entry rest inductionHypothesis =>
      rw [List.length_cons] at few
      have entryFinite := finite entry List.mem_cons_self
      have open_episode : (episode.extend [entry.tick]).isFull = false := by
        apply Episode.isFull_eq_false
        rw [Episode.extend_length, List.length_singleton]
        omega
      simp only [drain, Episode.push_of_isFinite (show episode.length < Episode.maxLength by omega) entryFinite]
      rw [if_neg (by simp [open_episode]; omega), inductionHypothesis _
        (by rw [Episode.extend_length, List.length_singleton]; omega)
        (fun other member => finite other (List.mem_cons_of_mem entry member)) (by omega), Episode.extend_extend,
        List.getLast?_cons, List.length_cons, Nat.sub_sub, Nat.add_comm 1]
      cases rest.getLast? <;> rfl

section
variable {episode : Episode}

/-- A seed ends with the newest tick. -/
theorem seed_ticked (nonempty : history.isEmpty = false) (tag : Tag) (count : Nat) :
    (seed history tag count).1.isEmpty = false := by
  have filled : history.entries.toList ≠ [] := by
    rwa [History.isEmpty, Ring.isEmpty_eq, List.isEmpty_eq_false_iff] at nonempty
  have newest : history.recent? 0 = some (history.entries.toList.getLast filled) := by
    rw [History.recent?, ← Ring.newest?, Ring.newest?_eq, List.getLast?_eq_getLast_of_ne_nil filled]
  rw [seed, List.range_succ_eq_map, List.reverse_cons, List.filterMap_append, List.foldl_append,
    List.filterMap_cons_some newest]
  exact Episode.push_ticked ..

theorem drain_ticked {running : Episode} {remaining lastSequence left newest : Nat} {entries : List History.Entry}
    (drained : drain running remaining lastSequence entries = (true, .capturing episode left newest)) :
    episode.isEmpty = false := by
  induction entries generalizing running remaining lastSequence with
  | nil => cases drained
  | cons entry rest inductionHypothesis =>
      rw [drain] at drained
      split at drained
      case isTrue =>
        cases drained
        exact Episode.push_ticked ..
      case isFalse => exact inductionHypothesis drained

theorem progress_ticked (completed : (capture.progress history).1 = some episode) : episode.isEmpty = false := by
  unfold progress at completed
  split at completed
  case h_1 => cases completed
  case h_2 =>
    split at completed
    case h_1 drained =>
      cases completed
      exact drain_ticked drained
    case h_2 => cases completed

theorem begin_ticked (started : (capture.begin history tag).1 = some episode) : episode.isEmpty = false := by
  unfold begin at started
  split at started
  case isTrue => cases started
  case isFalse nonempty =>
    dsimp only at started
    split at started
    case isTrue =>
      cases started
      exact seed_ticked (Bool.eq_false_iff.mpr nonempty) ..
    case isFalse => cases started

/-- No capture completes an episode without ticks. -/
theorem step_ticked (completed : (capture.step history tag).1 = some episode) : episode.isEmpty = false := by
  rw [step_eq] at completed
  split at completed
  case isTrue =>
    rcases (Option.orElse_eq_some ..).mp completed with started | ⟨-, finished⟩
    · exact begin_ticked started
    · exact progress_ticked finished
  case isFalse => exact progress_ticked completed

end

end Capture

end EpisodicReplay
