import EpisodicReplay.Proofs.Ring
import EpisodicReplay.Proofs.Store.Directory

/-!
The ids and the cache of a store that takes in episodes. They depend on the episodes alone, whatever becomes of the
files.
-/

namespace EpisodicReplay

/-- Something that writes an episode and its summary down. It may do anything to the files, and fail at any point. -/
abbrev Writer := String → UInt32 → Episode → Nat → FileAction Unit

namespace Store
variable {capacity : Nat} {store start now : Store capacity} {episode : Episode} {episodes : List Episode}
  {ids : List UInt32} {id : UInt32}

/-- An episode gets the next id, if there is one. -/
theorem enroll_fst (store : Store capacity) (episode : Episode) : (store.enroll episode).1 = store.nextId := by
  rw [enroll]
  cases store.nextId <;> rfl

/-- Finishes an episode with any writer. -/
def finalizeBy (writer : Writer) (store : Store capacity) (episode : Episode) :
    StateM Files (Option UInt32 × Store capacity) := do
  let (id?, next) := store.enroll episode
  match id?, store.directory with
  | some id, some directory =>
    let _ ← (writer directory id episode store.indexLimit).run
    return (id?, next)
  | _, _ => return (id?, next)

/-- No writer has a say in the id, or in what the store becomes. -/
theorem finalizeBy_fst (writer : Writer) (store : Store capacity) (episode : Episode) (files : Files) :
    ((store.finalizeBy writer episode).run files).1 = store.enroll episode := by
  rw [finalizeBy]
  obtain ⟨id?, next⟩ := store.enroll episode
  cases id? with
  | none => rfl
  | some id => cases store.directory <;> rfl

/-- The next id as a number. Without a next id it lies behind all ids. -/
def mark (store : Store capacity) : Nat :=
  (store.nextId.map UInt32.toNat).getD UInt32.size

theorem mark_of_some (available : store.nextId = some id) : store.mark = id.toNat := by
  simp [mark, available]

theorem mark_of_none (exhausted : store.nextId = none) : store.mark = UInt32.size := by
  simp [mark, exhausted]

theorem successor?_mark (id : UInt32) : ((successor? id).map UInt32.toNat).getD UInt32.size = id.toNat + 1 := by
  cases succeeds : successor? id with
  | some next => exact successor?_eq_some.mp succeeds
  | none =>
      have last : ¬id.toNat + 1 < UInt32.size := by
        intro below
        simp [successor?, below] at succeeds
      have := id.toNat_lt
      have size : UInt32.size = 4294967296 := rfl
      change UInt32.size = id.toNat + 1
      omega

theorem nextId_of_mark {other : Store capacity} (same : other.mark = store.mark) : other.nextId = store.nextId := by
  have size : UInt32.size = 4294967296 := rfl
  cases available : store.nextId with
  | none =>
      rw [mark_of_none available] at same
      cases present : other.nextId with
      | none => rfl
      | some id =>
          have := id.toNat_lt
          rw [mark_of_some present] at same
          omega
  | some id =>
      rw [mark_of_some available] at same
      cases present : other.nextId with
      | none =>
          have := id.toNat_lt
          rw [mark_of_none present] at same
          omega
      | some own =>
          rw [mark_of_some present] at same
          rw [UInt32.toNat_inj.mp same]

/-- Takes in an episode, if there is one. -/
def take (store : Store capacity) : Option Episode → Option UInt32 × Store capacity
  | none => (none, store)
  | some episode => store.enroll episode

/-- What a store has made of episodes: as long as there were ids it gave them one after another, and it keeps the
newest of its records, each with the episode as it came. -/
structure Enrolled (start now : Store capacity) (ids : List UInt32) (episodes : List Episode) : Prop where
  consecutive : ids.map UInt32.toNat = List.range' start.mark ids.length
  counted : ids.length = min episodes.length (UInt32.size - start.mark)
  mark : now.mark = start.mark + ids.length
  cached : now.cache.toList =
    (start.cache.toList ++ List.zipWith EpisodeRecord.mk ids episodes).rtake capacity

/-- What goes beyond the ids is left out. -/
theorem zipWith_append_of_length_le {α : Type} (record : UInt32 → Episode → α) (short : ids.length ≤ episodes.length)
    (more : List Episode) : List.zipWith record ids (episodes ++ more) = List.zipWith record ids episodes := by
  rw [List.zipWith_eq_zipWith_take_min, @List.zipWith_eq_zipWith_take_min _ _ _ _ ids episodes, List.length_append,
    Nat.min_eq_left short, Nat.min_eq_left (Nat.le_add_right_of_le short), List.take_append_of_le_length short]

theorem exists_of_mem_zipWith {α : Type} {record : UInt32 → Episode → α} {item : α}
    (member : item ∈ List.zipWith record ids episodes) : ∃ id ∈ ids, ∃ episode ∈ episodes, record id episode = item := by
  rw [← List.map_uncurry_zip_eq_zipWith] at member
  obtain ⟨⟨id, episode⟩, paired, shown⟩ := List.mem_map.mp member
  obtain ⟨given, finished⟩ := List.of_mem_zip paired
  exact ⟨id, given, episode, finished, shown⟩

namespace Enrolled

theorem refl (store : Store capacity) : store.Enrolled store [] [] where
  consecutive := rfl
  counted := by simp
  mark := rfl
  cached := by
    have bounded := store.cache.toList_length_le
    rw [List.zipWith_nil_left, List.append_nil, List.rtake, Nat.sub_eq_zero_of_le bounded, List.drop_zero]

/-- As long as there are ids, every episode has got one. -/
theorem length_eq (enrolled : start.Enrolled now ids episodes) (available : now.nextId = some id) :
    ids.length = episodes.length := by
  have counted := enrolled.counted
  have mark := enrolled.mark
  have inside := id.toNat_lt
  have size : UInt32.size = 4294967296 := rfl
  rw [mark_of_some available] at mark
  omega

theorem length_le (enrolled : start.Enrolled now ids episodes) : ids.length ≤ episodes.length := by
  rw [enrolled.counted]
  exact Nat.min_le_left ..

/-- A new store counts its ids from zero on, as long as there are any. -/
theorem range (enrolled : start.Enrolled now ids episodes) (first : start.nextId = some 0) :
    ids.map UInt32.toNat = List.range (min episodes.length UInt32.size) := by
  have counted := enrolled.counted
  have zero : start.mark = 0 := mark_of_some first
  rw [zero, Nat.sub_zero] at counted
  rw [enrolled.consecutive, zero, counted, List.range_eq_range']

/-- As long as they fit, all records are in the cache. -/
theorem cached_all (enrolled : start.Enrolled now ids episodes) (nothing : start.cache.toList = [])
    (fits : episodes.length ≤ capacity) : now.cache.toList = List.zipWith EpisodeRecord.mk ids episodes := by
  have few : (List.zipWith EpisodeRecord.mk ids episodes).length ≤ capacity := by
    rw [List.length_zipWith]
    exact Nat.le_trans (Nat.min_le_right ..) fits
  rw [enrolled.cached, nothing, List.nil_append, List.rtake, Nat.sub_eq_zero_of_le few, List.drop_zero]

/-- Once the ids are used up, an episode leaves no trace. -/
theorem drop (enrolled : start.Enrolled now ids episodes) (exhausted : now.nextId = none) (episode : Episode) :
    start.Enrolled now ids (episodes ++ [episode]) := by
  have counted := enrolled.counted
  have mark := enrolled.mark
  rw [mark_of_none exhausted] at mark
  refine ⟨enrolled.consecutive, ?_, enrolled.mark, ?_⟩
  · rw [List.length_append]
    omega
  · rw [zipWith_append_of_length_le _ enrolled.length_le, enrolled.cached]

/-- As long as there are ids, an episode gets the next one and becomes the newest record. -/
theorem enroll (enrolled : start.Enrolled now ids episodes) (available : now.nextId = some id) (episode : Episode) :
    start.Enrolled { now with nextId := successor? id, cache := (now.cache.push ⟨id, episode⟩).2 } (ids ++ [id])
      (episodes ++ [episode]) := by
  have even := enrolled.length_eq available
  have counted := enrolled.counted
  have mark := enrolled.mark
  have inside := id.toNat_lt
  have size : UInt32.size = 4294967296 := rfl
  rw [mark_of_some available] at mark
  refine ⟨?_, ?_, ?_, ?_⟩
  · rw [List.map_append, enrolled.consecutive, List.length_append, List.length_singleton, List.range'_1_concat, ← mark]
    rfl
  · rw [List.length_append, List.length_append, List.length_singleton, List.length_singleton]
    omega
  · rw [List.length_append, List.length_singleton, ← Nat.add_assoc, ← mark]
    exact successor?_mark id
  · rw [List.zipWith_append even, List.zipWith_cons_cons, List.zipWith_nil_left, ← List.append_assoc]
    exact Ring.push_toList_rtake enrolled.cached ⟨id, episode⟩

theorem take (enrolled : start.Enrolled now ids episodes) (captured : Option Episode) :
    start.Enrolled (now.take captured).2 (ids ++ (now.take captured).1.toList) (episodes ++ captured.toList) := by
  cases captured with
  | none => simpa [Store.take] using enrolled
  | some episode =>
      cases available : now.nextId with
      | none =>
          rw [Store.take, Store.enroll, available, Option.toList_none, List.append_nil]
          exact enrolled.drop available episode
      | some id =>
          rw [Store.take, Store.enroll, available]
          exact enrolled.enroll available episode

/-- New records have the ids below the next one. -/
theorem below (enrolled : start.Enrolled now ids episodes)
    (lower : ∀ record ∈ start.cache.toList, record.id.toNat < start.mark) :
    ∀ record ∈ now.cache.toList, record.id.toNat < now.mark := by
  intro record member
  rw [enrolled.cached] at member
  rw [enrolled.mark]
  rcases List.mem_append.mp (List.mem_of_mem_drop member) with old | new
  · exact Nat.lt_add_right _ (lower record old)
  · have among : record.id.toNat ∈ ids.map UInt32.toNat := by
      obtain ⟨id, given, episode, -, rfl⟩ := exists_of_mem_zipWith new
      exact List.mem_map_of_mem given
    rw [enrolled.consecutive, List.mem_range'_1] at among
    exact among.2

/-- Equal beginnings and equal episodes lead to equal ids and records. -/
theorem unique {other later : Store capacity} {otherIds : List UInt32} (enrolled : start.Enrolled now ids episodes)
    (again : other.Enrolled later otherIds episodes) (nextId : other.nextId = start.nextId)
    (cached : other.cache.toList = start.cache.toList) :
    otherIds = ids ∧ later.nextId = now.nextId ∧ later.cache.toList = now.cache.toList := by
  have start_mark : other.mark = start.mark := by rw [Store.mark, Store.mark, nextId]
  have length : otherIds.length = ids.length := by rw [enrolled.counted, again.counted, start_mark]
  have same : otherIds = ids := by
    refine List.map_injective_iff.mpr (fun _ _ => UInt32.toNat_inj.mp) ?_
    rw [enrolled.consecutive, again.consecutive, start_mark, length]
  refine ⟨same, nextId_of_mark ?_, ?_⟩
  · rw [enrolled.mark, again.mark, start_mark, length]
  · rw [enrolled.cached, again.cached, same, cached]

end Enrolled

end Store

end EpisodicReplay
