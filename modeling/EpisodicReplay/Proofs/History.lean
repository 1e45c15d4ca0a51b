import EpisodicReplay.History
import EpisodicReplay.Proofs.Episode
import EpisodicReplay.Proofs.Ring

/-! A history is the end of the list of all entries that were ever pushed. -/

namespace EpisodicReplay.History
variable {capacity : Nat}

/-- The history has seen exactly these entries, which are numbered from one, and still has the newest of them. -/
structure Holds (history : History capacity) (entries : List Entry) : Prop where
  contents : history.entries.toList = entries.rtake capacity
  last : history.lastSequence = entries.length
  numbered : entries.map Entry.sequence = List.range' 1 entries.length
  finite : ∀ entry ∈ entries, entry.tick.isFinite

theorem empty_holds (capacity_pos : 0 < capacity) : (empty capacity_pos).Holds [] where
  contents := by simp [empty]
  last := rfl
  numbered := rfl
  finite := by simp

/-- The entry that a push adds. -/
def incoming (history : History capacity) (tick : Tick) : Entry :=
  ⟨tick.sanitized (history.entries.newest?.map Entry.tick), history.lastSequence + 1⟩

theorem recent?_push (history : History capacity) (tick : Tick) :
    (history.push tick).recent? 0 = some (history.incoming tick) := by
  have pos := history.entries.capacity_pos
  obtain ⟨room, eq⟩ : ∃ room, capacity = room + 1 := ⟨capacity - 1, by omega⟩
  change (history.entries.push (history.incoming tick)).2.newest? = _
  subst eq
  rw [Ring.newest?_eq, Ring.push_toList, List.rtake_concat_succ, List.getLast?_concat]

namespace Holds
variable {history : History capacity} {entries : List Entry}

theorem push (holds : history.Holds entries) (tick : Tick) :
    (history.push tick).Holds (entries ++ [history.incoming tick]) where
  contents := Ring.push_toList_rtake holds.contents (history.incoming tick)
  last := by simp [History.push, holds.last]
  numbered := by
    rw [List.map_append, holds.numbered, List.length_append, List.length_singleton, List.range'_1_concat]
    simp [incoming, holds.last, Nat.add_comm]
  finite := by
    intro entry member
    rw [List.mem_append, List.mem_singleton] at member
    rcases member with old | new
    · exact holds.finite entry old
    · rw [new]
      exact Tick.sanitized_isFinite _ _

theorem size (holds : history.Holds entries) : history.size = min capacity entries.length := by
  rw [History.size, ← Ring.toList_length, holds.contents, List.rtake, List.length_drop]
  omega

theorem isEmpty (holds : history.Holds entries) : history.isEmpty = entries.isEmpty := by
  have pos := history.entries.capacity_pos
  rw [Bool.eq_iff_iff, History.isEmpty, Ring.isEmpty_eq, List.isEmpty_iff_length_eq_zero, Ring.toList_length,
    List.isEmpty_iff_length_eq_zero]
  have := holds.size
  rw [History.size] at this
  omega

theorem sequence_getElem (holds : history.Holds entries) (index : Nat) (inside : index < entries.length) :
    entries[index].sequence = index + 1 := by
  have same : (entries.map Entry.sequence)[index]? = (List.range' 1 entries.length)[index]? := by
    rw [holds.numbered]
  rw [List.getElem?_map, List.getElem?_eq_getElem inside, List.getElem?_range' inside] at same
  simpa [Nat.add_comm] using same

/-- What is still there of the entries after a sequence number. -/
theorem entriesAfter_eq (holds : history.Holds entries) (sequence : Nat) :
    history.entriesAfter sequence = entries.drop (max sequence (entries.length - capacity)) := by
  have split : entries.rtake capacity =
      (entries.drop (entries.length - capacity)).take (sequence - (entries.length - capacity)) ++
        entries.drop (max sequence (entries.length - capacity)) := by
    conv_lhs => rw [List.rtake, ← List.take_append_drop (sequence - (entries.length - capacity))
      (entries.drop (entries.length - capacity)), List.drop_drop]
    congr 2
    omega
  rw [History.entriesAfter, holds.contents, split, List.filter_append]
  have older : ∀ entry ∈ (entries.drop (entries.length - capacity)).take (sequence - (entries.length - capacity)),
      ¬sequence < entry.sequence := by
    intro entry member
    obtain ⟨index, inside, rfl⟩ := List.getElem_of_mem member
    rw [List.length_take, List.length_drop] at inside
    rw [List.getElem_take, List.getElem_drop, holds.sequence_getElem]
    omega
  have newer : ∀ entry ∈ entries.drop (max sequence (entries.length - capacity)), sequence < entry.sequence := by
    intro entry member
    obtain ⟨index, inside, rfl⟩ := List.getElem_of_mem member
    rw [List.length_drop] at inside
    rw [List.getElem_drop, holds.sequence_getElem]
    omega
  rw [List.filter_eq_nil_iff.mpr (by simpa using older), List.filter_eq_self.mpr (by simpa using newer),
    List.nil_append]

/-- None of the entries after a sequence number has been given up. -/
theorem entriesAfter (holds : history.Holds entries) {sequence : Nat} (kept : entries.length ≤ sequence + capacity) :
    history.entriesAfter sequence = entries.drop sequence := by
  rw [holds.entriesAfter_eq, Nat.max_eq_left (by omega)]

/-- The newest entries up to an offset, oldest first. -/
theorem newest (holds : history.Holds entries) {count : Nat} (inside : count < history.size) :
    (List.range (count + 1)).reverse.filterMap history.recent? = entries.rtake (count + 1) := by
  have size := holds.size
  have recent (offset : Nat) (below : offset < history.size) :
      history.recent? offset = entries.reverse[offset]? := by
    rw [History.recent?, Ring.recent?_eq, holds.contents, List.rtake_eq_reverse_take_reverse, List.reverse_reverse,
      List.getElem?_take_of_lt (by omega)]
  rw [List.rtake_eq_reverse_take_reverse, List.filterMap_reverse]
  congr 1
  have whole : ((List.range (count + 1)).map history.recent?) =
      (entries.reverse.take (count + 1)).map some := by
    apply List.ext_getElem
    · simp
      omega
    intro index first second
    rw [List.length_map, List.length_range] at first
    rw [List.getElem_map, List.getElem_range, recent index (by omega), List.getElem_map, List.getElem_take,
      List.getElem?_eq_getElem]
  have merged := congrArg (List.filterMap id) whole
  simpa [List.filterMap_map] using merged

end Holds

end EpisodicReplay.History
