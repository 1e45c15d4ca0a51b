import EpisodicReplay.Proofs.History

/-!
Histories and episodes of raw ticks. In each of their ticks a channel has the last finite value that was pushed, so what
is stored depends neither on what has been given up since nor on how much fits.
-/

namespace EpisodicReplay

namespace Tick
variable {ticks : List Tick} {previous : Option Tick}

/-- The last of some numbers that is finite; zero if none is. -/
def lastFinite (numbers : List Float32) : Float32 :=
  (numbers.filter Float32.isFinite).getLastD 0

/-- Each channel as of the last tick in which it was finite. -/
def settled (ticks : List Tick) : Tick where
  amp := lastFinite (ticks.map amp)
  tempo := lastFinite (ticks.map tempo)
  consent := lastFinite (ticks.map consent)
  influence := lastFinite (ticks.map influence)
  harmony := lastFinite (ticks.map harmony)
  dream := lastFinite (ticks.map dream)
  filterDelta := lastFinite (ticks.map filterDelta)
  filterAlpha := lastFinite (ticks.map filterAlpha)

theorem lastFinite_concat (numbers : List Float32) (number : Float32) :
    lastFinite (numbers ++ [number]) = Binary32.finiteOr number (lastFinite numbers) := by
  unfold lastFinite Binary32.finiteOr
  rw [List.filter_append]
  split
  case isTrue finite => simp [finite]
  case isFalse infinite => simp [infinite]

theorem lastFinite_isFinite (numbers : List Float32) : (lastFinite numbers).isFinite := by
  induction numbers using List.reverseRecOn with
  | nil => exact Binary32.isFinite_zero
  | append_singleton numbers number inductionHypothesis =>
      rw [lastFinite_concat]
      exact Binary32.finiteOr_isFinite number inductionHypothesis

/-- Sanitizing a tick against the settled ones before it settles it too. -/
theorem sanitized_of_settled (tick : Tick) (before : previous.getD zero = settled ticks) :
    tick.sanitized previous = settled (ticks ++ [tick]) := by
  simp only [sanitized, before, settled, zipWith, List.map_append, List.map_singleton, lastFinite_concat,
    Binary32.finiteOr_of_isFinite (lastFinite_isFinite _)]

theorem settled_isFinite (ticks : List Tick) : (settled ticks).isFinite := by
  simp [isFinite, values, settled, lastFinite_isFinite]

/-- The ticks of a list as they settle one after another, up to a count. -/
def settledUpTo (ticks : List Tick) (count : Nat) : List Tick :=
  (List.range' 1 count).map fun length => settled (ticks.take length)

/-- Later ticks do not change how the earlier ones settled. -/
theorem settledUpTo_append {count : Nat} (inside : count ≤ ticks.length) (more : List Tick) :
    settledUpTo (ticks ++ more) count = settledUpTo ticks count := by
  refine List.map_congr_left fun length member => ?_
  rw [List.mem_range'_1] at member
  rw [List.take_append_of_le_length (by omega)]

theorem settledUpTo_concat (ticks : List Tick) (tick : Tick) :
    settledUpTo (ticks ++ [tick]) (ticks.length + 1) =
      settledUpTo ticks ticks.length ++ [settled (ticks ++ [tick])] := by
  rw [← settledUpTo_append (Nat.le_refl _) [tick], settledUpTo, List.range'_1_concat, List.map_append,
    List.map_singleton, Nat.add_comm 1, List.take_of_length_le (by simp)]
  rfl

/-- The last of the settled ticks is settled by all of them. -/
theorem getLast?_settledUpTo (ticks : List Tick) :
    (settledUpTo ticks ticks.length).getLast?.getD zero = settled ticks := by
  rcases List.eq_nil_or_concat ticks with rfl | ⟨front, tick, rfl⟩
  · rfl
  · rw [List.concat_eq_append, List.length_append, List.length_singleton, settledUpTo_concat, List.getLast?_concat,
      Option.getD_some]

end Tick

namespace History
variable {capacity : Nat}

/-- The history of ticks that were pushed one after another. -/
def ofTicks (capacity_pos : 0 < capacity) (ticks : List Tick) : History capacity :=
  ticks.foldl push (empty capacity_pos)

/-- The entry that the tick at a sequence number makes. -/
def entryOf (ticks : List Tick) (sequence : Nat) : Entry :=
  ⟨.settled (ticks.take sequence), sequence⟩

/-- The entries that ticks make after a sequence number, oldest first. -/
def entriesFrom (ticks : List Tick) (sequence : Nat) : List Entry :=
  (List.range' (sequence + 1) (ticks.length - sequence)).map (entryOf ticks)

theorem drop_entriesFrom (ticks : List Tick) (sequence : Nat) :
    (entriesFrom ticks 0).drop sequence = entriesFrom ticks sequence := by
  rw [entriesFrom, entriesFrom, ← List.map_drop, List.drop_range', Nat.mul_one, Nat.sub_zero, Nat.zero_add,
    Nat.add_comm 1]

theorem length_entriesFrom (ticks : List Tick) : (entriesFrom ticks 0).length = ticks.length := by
  rw [entriesFrom, List.length_map, List.length_range', Nat.sub_zero]

theorem map_tick_entriesFrom (ticks : List Tick) :
    (entriesFrom ticks 0).map Entry.tick = Tick.settledUpTo ticks ticks.length := by
  rw [entriesFrom, List.map_map]
  rfl

theorem entriesFrom_concat (ticks : List Tick) (tick : Tick) : entriesFrom (ticks ++ [tick]) 0 =
    entriesFrom ticks 0 ++ [⟨.settled (ticks ++ [tick]), ticks.length + 1⟩] := by
  have earlier : (List.range' 1 ticks.length).map (entryOf (ticks ++ [tick])) =
      (List.range' 1 ticks.length).map (entryOf ticks) := by
    refine List.map_congr_left fun sequence member => ?_
    rw [List.mem_range'_1] at member
    rw [entryOf, entryOf, List.take_append_of_le_length (by omega)]
  rw [entriesFrom, entriesFrom, List.length_append, List.length_singleton, Nat.sub_zero, Nat.sub_zero,
    List.range'_1_concat, List.map_append, earlier, List.map_singleton, entryOf, Nat.zero_add, Nat.add_comm 1,
    List.take_of_length_le (by simp)]

/-- A history has seen the entries that its ticks make. -/
theorem holds_ofTicks (capacity_pos : 0 < capacity) (ticks : List Tick) :
    (ofTicks capacity_pos ticks).Holds (entriesFrom ticks 0) := by
  induction ticks using List.reverseRecOn with
  | nil => exact empty_holds capacity_pos
  | append_singleton ticks tick inductionHypothesis =>
      have newest : (((ofTicks capacity_pos ticks).entries.newest?.map Entry.tick).getD Tick.zero) =
          Tick.settled ticks := by
        obtain ⟨room, rfl⟩ := Nat.exists_eq_succ_of_ne_zero capacity_pos.ne'
        have last : ((entriesFrom ticks 0).rtake (room + 1)).getLast? = (entriesFrom ticks 0).getLast? := by
          rcases List.eq_nil_or_concat (entriesFrom ticks 0) with none | ⟨front, entry, some⟩
          · rw [none, List.rtake_nil]
          · rw [some, List.concat_eq_append, List.rtake_concat_succ, List.getLast?_concat, List.getLast?_concat]
        rw [Ring.newest?_eq, inductionHypothesis.contents, last, ← List.getLast?_map, map_tick_entriesFrom,
          Tick.getLast?_settledUpTo]
      have incoming : (ofTicks capacity_pos ticks).incoming tick =
          ⟨Tick.settled (ticks ++ [tick]), ticks.length + 1⟩ := by
        rw [History.incoming, Tick.sanitized_of_settled tick newest, inductionHypothesis.last, length_entriesFrom]
      rw [entriesFrom_concat, ← incoming, ofTicks, List.foldl_concat]
      exact inductionHypothesis.push tick

end History

/-- The first ticks that fit into an episode settle there. -/
theorem Episode.ofTicks_settled (ticks : List Tick) (tag : Tag) :
    (ofTicks ticks tag).ticks.toList = Tick.settledUpTo ticks (min maxLength ticks.length) := by
  induction ticks using List.reverseRecOn with
  | nil => rfl
  | append_singleton ticks tick inductionHypothesis =>
      have length : (ofTicks ticks tag).length = min maxLength ticks.length := by
        rw [Episode.length, ← Array.length_toList, inductionHypothesis, Tick.settledUpTo, List.length_map,
          List.length_range']
      rw [ofTicks, List.foldl_concat, ← ofTicks, List.length_append, List.length_singleton]
      unfold push
      split
      case isTrue full =>
        have long : maxLength ≤ (ofTicks ticks tag).length := of_decide_eq_true full
        rw [Nat.min_eq_left (by omega), ← Tick.settledUpTo_append (by omega) [tick]] at inductionHypothesis
        rw [inductionHypothesis, Nat.min_eq_left (by omega)]
      case isFalse room =>
        have short : ¬maxLength ≤ (ofTicks ticks tag).length := fun full => room (decide_eq_true full)
        rw [Nat.min_eq_right (by omega)] at inductionHypothesis
        have last : (ofTicks ticks tag).ticks.back?.getD Tick.zero = Tick.settled ticks := by
          rw [← Array.getLast?_toList, inductionHypothesis, Tick.getLast?_settledUpTo]
        rw [Array.toList_push, inductionHypothesis, Tick.sanitized_of_settled tick last, Nat.min_eq_right (by omega),
          Tick.settledUpTo_concat]

theorem Episode.ofTicks_tag (ticks : List Tick) (tag : Tag) : (ofTicks ticks tag).tag = tag := by
  induction ticks using List.reverseRecOn with
  | nil => rfl
  | append_singleton ticks tick inductionHypothesis =>
      rw [ofTicks, List.foldl_concat, ← ofTicks, push]
      split <;> exact inductionHypothesis

namespace History
variable {capacity : Nat}

/-- What a history tells of the ticks that were pushed into it. -/
structure Recalls (history : History capacity) (ticks : List Tick) : Prop where
  last : history.lastSequence = ticks.length
  size : history.size = min capacity ticks.length
  contents : history.entries.toList = entriesFrom ticks (ticks.length - min capacity ticks.length)
  after : ∀ sequence, history.entriesAfter sequence =
    entriesFrom ticks (max sequence (ticks.length - min capacity ticks.length))
  finite : ∀ entry ∈ history.entries.toList, entry.tick.isFinite
  /-- No sequence number outgrows a 64-bit counter before the pushes do. -/
  counted : ticks.length < UInt64.size →
    history.lastSequence < UInt64.size ∧ ∀ entry ∈ history.entries.toList, entry.sequence < UInt64.size

/-- A history recalls the newest of its ticks, without a gap and settled. An episode of the same ticks holds the first
of them in the same way, and taking in what it holds once more changes nothing. -/
theorem recalls_ofTicks (capacity_pos : 0 < capacity) (ticks : List Tick) (tag : Tag) :
    let history := ofTicks capacity_pos ticks
    let episode := Episode.ofTicks ticks tag
    history.Recalls ticks ∧
      episode.ticks.toList = Tick.settledUpTo ticks (min Episode.maxLength ticks.length) ∧
      (ticks.length ≤ min capacity Episode.maxLength →
        episode.ticks.toList = history.entries.toList.map Entry.tick) ∧
      ∀ other, Episode.ofTicks episode.ticks.toList other = episode.setTag other := by
  intro history episode
  have holds : history.Holds (entriesFrom ticks 0) := holds_ofTicks capacity_pos ticks
  have settled : episode.ticks.toList = Tick.settledUpTo ticks (min Episode.maxLength ticks.length) :=
    Episode.ofTicks_settled ticks tag
  have kept : ticks.length - capacity = ticks.length - min capacity ticks.length := by omega
  have contents : history.entries.toList = entriesFrom ticks (ticks.length - min capacity ticks.length) := by
    rw [holds.contents, List.rtake, drop_entriesFrom, length_entriesFrom, kept]
  have last : history.lastSequence = ticks.length := by rw [holds.last, length_entriesFrom]
  refine ⟨⟨last, ?_, contents, fun sequence => ?_, fun entry member => ?_, fun few => ⟨?_, fun entry member => ?_⟩⟩,
    settled, fun fits => ?_, fun other => ?_⟩
  · rw [holds.size, length_entriesFrom]
  · rw [holds.entriesAfter_eq, drop_entriesFrom, length_entriesFrom, kept]
  · rw [contents] at member
    obtain ⟨sequence, -, rfl⟩ := List.mem_map.mp member
    exact Tick.settled_isFinite _
  · rwa [last]
  · rw [contents] at member
    obtain ⟨sequence, numbered, rfl⟩ := List.mem_map.mp member
    rw [List.mem_range'_1] at numbered
    change sequence < UInt64.size
    omega
  · have whole : ticks.length - min capacity ticks.length = 0 := by omega
    rw [settled, contents, whole, map_tick_entriesFrom, Nat.min_eq_right (by omega)]
  · have sound : episode.Sound := (Episode.Built.ofTicks ticks tag).sound
    have fits : episode.ticks.toList.length ≤ Episode.maxLength := sound.fits
    rw [Episode.ofTicks_of_isFinite fits sound.finite, Array.toArray_toList, Episode.setTag]

/-- A NaN and an infinity behind a tick, in a history that has given up the tick that they fall back on. -/
theorem recalls_ofTicks_noisy :
    let ticks : List Tick := [{ Tick.zero with amp := 0.5, dream := 0 / 0 },
      { Tick.zero with amp := 0 / 0, tempo := 2 }, { Tick.zero with amp := Binary32.infinity, tempo := 0 / 0 }]
    let history : History 2 := ofTicks (by decide) ticks
    let episode := Episode.ofTicks ticks .spike
    history.Recalls ticks ∧
      history.entriesAfter 2 = [⟨{ Tick.zero with amp := 0.5, tempo := 2 }, 3⟩] ∧
      episode.ticks.toList = Tick.settledUpTo ticks 3 ∧
      (ofTicks (show 0 < 4 by decide) ticks).entries.toList.map Entry.tick = episode.ticks.toList ∧
      Episode.ofTicks episode.ticks.toList .align = episode.setTag .align := by
  intro ticks history episode
  obtain ⟨recalls, settled, -, same⟩ := recalls_ofTicks (show 0 < 2 by decide) ticks .spike
  have wide := (recalls_ofTicks (show 0 < 4 by decide) ticks .spike).2.2.1 (by decide)
  refine ⟨recalls, ?_, settled, wide.symm, same .align⟩
  rw [recalls.after 2]
  decide +kernel

end History

end EpisodicReplay
