import EpisodicReplay.Ring
import Mathlib.Data.List.DropRight

/-! A ring refines the list of the newest items: the slots behind its head, from the last of them on. -/

namespace EpisodicReplay.Ring
variable {α : Type} {capacity : Nat}

theorem recent?_of_le {ring : Ring α capacity} {offset : Nat} (outside : ring.size ≤ offset) :
    ring.recent? offset = none :=
  if_neg (Nat.not_lt.mpr outside)

theorem get?_of_le {ring : Ring α capacity} {index : Nat} (outside : ring.size ≤ index) : ring.get? index = none :=
  if_neg (Nat.not_lt.mpr outside)

/-- Both ways of counting lead to the same slot. -/
theorem get?_eq_recent? {ring : Ring α capacity} {index : Nat} (inside : index < ring.size) :
    ring.get? index = ring.recent? (ring.size - 1 - index) := by
  have bounded := ring.size_le
  have place : ring.head + capacity - ring.size + index = ring.head + capacity - 1 - (ring.size - 1 - index) := by
    omega
  rw [get?, if_pos inside, recent?, if_pos (by omega)]
  simp only [slotAt, Nat.mod_add_mod, place]

theorem get?_isSome {ring : Ring α capacity} {index : Nat} (inside : index < ring.size) :
    (ring.get? index).isSome := by
  have behind : ring.size - 1 - index < ring.size := by omega
  rw [get?_eq_recent? inside, recent?, if_pos behind]
  exact ring.taken _ behind

/-- A walk finds an item at each position. -/
theorem map_some_toList (ring : Ring α capacity) : ring.toList.map some = (List.range ring.size).map ring.get? := by
  rw [toList, List.map_filterMap_some_eq_filter_map_isSome, List.filter_eq_self]
  intro found member
  obtain ⟨index, inside, rfl⟩ := List.mem_map.mp member
  exact get?_isSome (List.mem_range.mp inside)

theorem toList_length (ring : Ring α capacity) : ring.toList.length = ring.size := by
  rw [← List.length_map some, map_some_toList, List.length_map, List.length_range]

theorem toList_length_le (ring : Ring α capacity) : ring.toList.length ≤ capacity :=
  ring.toList_length ▸ ring.size_le

@[simp] theorem toList_empty (capacity_pos : 0 < capacity) :
    (empty capacity_pos : Ring α capacity).toList = [] := rfl

@[simp] theorem toList_clear (ring : Ring α capacity) : ring.clear.toList = [] := rfl

theorem isEmpty_eq (ring : Ring α capacity) : ring.isEmpty = ring.toList.isEmpty := by
  rw [Bool.eq_iff_iff, List.isEmpty_iff_length_eq_zero, toList_length, isEmpty, beq_iff_eq]

theorem get?_eq (ring : Ring α capacity) (index : Nat) : ring.get? index = ring.toList[index]? := by
  rcases Nat.lt_or_ge index ring.size with inside | outside
  · have found : (ring.toList.map some)[index]? = some (ring.get? index) := by
      rw [map_some_toList, List.getElem?_map, List.getElem?_range inside, Option.map_some]
    rw [List.getElem?_map, Option.map_eq_some_iff] at found
    obtain ⟨item, there, same⟩ := found
    rw [there, ← same]
  · rw [get?_of_le outside, List.getElem?_eq_none (by rwa [toList_length])]

theorem recent?_eq (ring : Ring α capacity) (offset : Nat) : ring.recent? offset = ring.toList.reverse[offset]? := by
  rcases Nat.lt_or_ge offset ring.size with inside | outside
  · have behind : ring.size - 1 - (ring.size - 1 - offset) = offset := by omega
    rw [List.getElem?_reverse (by rwa [toList_length]), toList_length, ← get?_eq, get?_eq_recent? (by omega), behind]
  · rw [recent?_of_le outside, List.getElem?_eq_none (by rwa [List.length_reverse, toList_length])]

theorem newest?_eq (ring : Ring α capacity) : ring.newest? = ring.toList.getLast? := by
  rw [newest?, recent?_eq, ← List.head?_eq_getElem?, List.head?_reverse]

section push
variable (ring : Ring α capacity) (item : α)

theorem push_size : (ring.push item).2.size = min (ring.size + 1) capacity := by
  have bounded := ring.size_le
  rw [push]
  split
  case isTrue room => exact (Nat.min_eq_left room).symm
  case isFalse full =>
    show ring.size = _
    omega

theorem push_slots : (ring.push item).2.slots = ring.slots.set ring.head (some item) ring.head_lt := by
  rw [push]
  split <;> rfl

theorem push_head : (ring.push item).2.head = (ring.head + 1) % capacity := by
  rw [push]
  split <;> rfl

theorem recent?_push_zero : (ring.push item).2.recent? 0 = some item := by
  have pos := ring.capacity_pos
  have filled := slotAt_set_newest ring.slots ring.head_lt pos (some item)
  rw [recent?, push_size, if_pos (by omega)]
  simp only [push_slots, push_head, Nat.sub_zero, filled]

/-- What was there before is one position further back, as long as there is room. -/
theorem recent?_push_succ {offset : Nat} (inside : offset + 1 < capacity) :
    (ring.push item).2.recent? (offset + 1) = ring.recent? offset := by
  have kept := slotAt_set_older ring.slots ring.head_lt ring.capacity_pos (some item) inside
  have still : offset + 1 < min (ring.size + 1) capacity ↔ offset < ring.size := by omega
  rw [recent?, recent?, push_size]
  simp only [push_slots, push_head, kept, still]

theorem push_reverse_toList : (ring.push item).2.toList.reverse = (item :: ring.toList.reverse).take capacity := by
  have pos := ring.capacity_pos
  apply List.ext_getElem?
  intro offset
  rw [← recent?_eq]
  rcases Nat.lt_or_ge offset capacity with inside | outside
  · rw [List.getElem?_take_of_lt inside]
    cases offset with
    | zero => rw [recent?_push_zero, List.getElem?_cons_zero]
    | succ offset => rw [recent?_push_succ ring item inside, List.getElem?_cons_succ, recent?_eq]
  · rw [recent?_of_le (Nat.le_trans (ring.push item).2.size_le outside), List.getElem?_take_eq_none outside]

/-- A push keeps the newest items that fit. -/
theorem push_toList : (ring.push item).2.toList = (ring.toList ++ [item]).rtake capacity := by
  rw [List.rtake_eq_reverse_take_reverse, List.reverse_concat, ← push_reverse_toList, List.reverse_reverse]

/-- A full ring gives up the oldest of its items. -/
theorem push_evicted : (ring.push item).1 = if ring.toList.length = capacity then ring.toList.head? else none := by
  have bounded := ring.size_le
  rw [toList_length, push]
  split
  case isTrue room => rw [if_neg room.ne]
  case isFalse full =>
    have head_lt := ring.head_lt
    have whole : ring.size = capacity := by omega
    have oldest : ring.get? 0 = ring.slots[ring.head] := by
      rw [get?, if_pos (by omega)]
      simp only [slotAt, whole, Nat.add_sub_cancel, Nat.add_zero, Nat.mod_eq_of_lt head_lt]
    rw [if_pos whole, List.head?_eq_getElem?, ← get?_eq, oldest]

end push

/-- A ring with the newest of some items has the newest of one item more after a push. -/
theorem push_toList_rtake {ring : Ring α capacity} {items : List α} (holds : ring.toList = items.rtake capacity)
    (item : α) : (ring.push item).2.toList = (items ++ [item]).rtake capacity := by
  rw [push_toList, holds]
  simp only [List.rtake, List.length_append, List.length_drop, List.length_singleton]
  rw [List.drop_append, List.drop_append, List.drop_drop, List.length_drop]
  have := ring.capacity_pos
  congr 2 <;> omega

end EpisodicReplay.Ring
