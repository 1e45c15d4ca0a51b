import EpisodicReplay.Proofs.Selector
import EpisodicReplay.Proofs.Store.Series
import EpisodicReplay.Tuning.Run

/-!
What selection and tuning get to see of a store. A store on a directory and a store in memory show the same as long as
neither the cache nor the index has dropped an episode, and the numbers of the index are read back.
-/

namespace EpisodicReplay

/-- A record is read back if its numbers are. -/
theorem IndexRecord.ofLine?_line_of_readsBack {record : IndexRecord} (short : record.length < UInt64.size)
    (delta : Json.ReadsBack record.deltaMax) (alpha : Json.ReadsBack record.alphaMean) :
    ofLine? record.line = some record := by
  obtain ⟨deltaMax, spelledDelta⟩ := Json.spells_writeFloat32 record.deltaMax
  obtain ⟨alphaMean, spelledAlpha⟩ := Json.spells_writeFloat32 record.alphaMean
  rw [ofLine?_line short spelledDelta spelledAlpha, delta.float32? spelledDelta, alpha.float32? spelledAlpha]
  rfl

theorem Index.readRecords_of_lines {content : ByteArray} {records : List IndexRecord}
    (lines : textLines content = records.map IndexRecord.line)
    (read : ∀ record ∈ records, IndexRecord.ofLine? record.line = some record) : readRecords content = records := by
  rw [readRecords, lines, List.filterMap_map]
  exact (List.filterMap_congr read).trans List.filterMap_some

namespace Store
variable {capacity otherCapacity : Nat} {store : Store capacity} {other : Store otherCapacity}
  {files otherFiles : Files} {id : UInt32}

/-- The files have no say in a cached episode. -/
theorem episode?_of_cached (same : other.cache.toList = store.cache.toList)
    (cached : id ∈ store.cache.toList.map EpisodeRecord.id) : other.episode? otherFiles id = store.episode? files id := by
  obtain ⟨record, member, rfl⟩ := List.mem_map.mp cached
  rw [episode?, episode?, same]
  cases found : store.cache.toList.find? (·.id == record.id) with
  | none => exact absurd (List.find?_eq_none.mp found record member) (by simp)
  | some first => rfl

/-- A store in memory shows its cache. -/
theorem Enrolled.records_inMemory {start now : Store capacity} {ids : List UInt32} {episodes : List Episode}
    (enrolled : start.Enrolled now ids episodes) (nothing : start.cache.toList = [])
    (fits : episodes.length ≤ capacity) (inMemory : now.directory = none) (files : Files) :
    now.records files = List.zipWith IndexRecord.ofEpisode ids episodes := by
  rw [records, isPersistent, inMemory, enrolled.cached_all nothing fits, List.map_zipWith]
  rfl

/-- Stores with the same records and the same cache give the same episodes to every selector. -/
theorem selectForTuning_congr (records : other.records otherFiles = store.records files)
    (same : other.cache.toList = store.cache.toList)
    (cached : ∀ id ∈ (store.records files).map IndexRecord.id, id ∈ store.cache.toList.map EpisodeRecord.id)
    (selector : Selector) (count : Nat) :
    other.selectForTuning otherFiles selector count = store.selectForTuning files selector count := by
  rw [selectForTuning, selectForTuning, records]
  refine List.filterMap_congr fun id member => ?_
  rw [episode?_of_cached same (cached id (Selector.mem_of_selectForTuning member))]

end Store

namespace Session
open Store (indexName)
variable {capacity : Nat} {indexLimit : Nat} {files : Files} {directory : String} {place : Location}
  {session other : Session} {episodes : List Episode}

/-- The index shows what a store in memory would show, if it never has to be emptied and its numbers are read back. -/
theorem Indexed.records_finish (indexed : session.Indexed directory place)
    (nothing : session.files.contentAt (place ++ [indexName]) = .empty)
    (room : ∀ count < episodes.length, ¬(session.finish directory (episodes.take count)).2.Truncates directory)
    (built : ∀ episode ∈ episodes, episode.Built)
    (readsBack : ∀ episode ∈ episodes, Json.ReadsBack episode.deltaMax ∧ Json.ReadsBack episode.alphaMean) :
    (session.finish directory episodes).2.store.records (session.finish directory episodes).2.files =
      List.zipWith IndexRecord.ofEpisode (session.finish directory episodes).1 episodes := by
  obtain ⟨first, listed, lines⟩ := indexed.exists_listedFrom nothing episodes
  rw [listed.eq_zero room, List.drop_zero] at lines
  have last := (indexed.finish episodes).consistent
  have persistent : (session.finish directory episodes).2.store.isPersistent = true := by
    rw [Store.isPersistent, last.based]
    rfl
  rw [Store.records, if_pos persistent, last.home.readIndex_eq last.based]
  refine Index.readRecords_of_lines lines fun record member => ?_
  obtain ⟨id, -, episode, finished, rfl⟩ := Store.exists_of_mem_zipWith member
  have short : episode.length < UInt64.size := Nat.lt_of_le_of_lt (built episode finished).sound.fits (by decide)
  obtain ⟨delta, alpha⟩ := readsBack episode finished
  exact IndexRecord.ofLine?_line_of_readsBack short delta alpha

/-- Two sessions that selection and tuning cannot tell apart. -/
structure Matches (session other : Session) : Prop where
  records : session.store.records session.files = other.store.records other.files
  selected : ∀ selector count, session.store.selectForTuning session.files selector count =
    other.store.selectForTuning other.files selector count
  tuned : ∀ (φ : Type) [SmoothingFilter φ] (tuner : Tuning.Tuner) (settings : Tuning.Settings),
    (Tuning.Tuner.run φ session.store session.files settings).run.run tuner =
      (Tuning.Tuner.run φ other.store other.files settings).run.run tuner

/-- Sessions with the same records, which are all in the cache, match. -/
theorem matches_of_cached (records : session.store.records session.files = other.store.records other.files)
    (same : session.store.cache.toList = other.store.cache.toList)
    (cached : ∀ id ∈ (other.store.records other.files).map IndexRecord.id,
      id ∈ other.store.cache.toList.map EpisodeRecord.id) : session.Matches other where
  records := records
  selected := Store.selectForTuning_congr records same cached
  tuned φ _ tuner settings := by
    rw [Tuning.Tuner.run, Tuning.Tuner.run, Store.selectForTuning_congr records same cached]

/-- As long as nothing is dropped, it makes no difference for selection and tuning whether a store keeps its episodes
in memory or in an empty directory. Both list all of them. -/
theorem matches_inMemory (usable : Usable files directory)
    (empty : (files.createDirectories directory).2.list directory = .ok []) (capacity_pos : 0 < capacity)
    (indexLimit : Nat) (elsewhere : Files) (episodes : List Episode) (fits : episodes.length ≤ capacity)
    (built : ∀ episode ∈ episodes, episode.Built) (finite : ∀ episode ∈ episodes, episode.alphaMean.isFinite = true)
    (readsBack : ∀ episode ∈ episodes, ∀ value ∈ [episode.deltaMax, episode.alphaMean],
      value.isFinite = true → Json.ReadsBack value)
    (room : ∀ count < episodes.length, ¬((opened directory capacity_pos indexLimit files).finish directory
      (episodes.take count)).2.Truncates directory) :
    let memory := (Session.mk capacity (.inMemory capacity_pos) elsewhere).finish directory episodes
    let disk := (opened directory capacity_pos indexLimit files).finish directory episodes
    Matches memory.2 disk.2 ∧ memory.1 = disk.1 ∧
      disk.2.store.records disk.2.files = List.zipWith IndexRecord.ofEpisode disk.1 episodes := by
  intro memory disk
  obtain ⟨place, keeps⟩ := @opened_keeps_empty _ _ _ capacity_pos indexLimit usable empty
  have beginning := @opened_of_empty _ capacity_pos indexLimit _ _ usable empty
  obtain ⟨indexed, nothing⟩ := keeps.consistent.indexed_of_empty (by rw [beginning]; exact empty)
  have shown : disk.2.store.records disk.2.files = List.zipWith IndexRecord.ofEpisode disk.1 episodes :=
    indexed.records_finish nothing room built fun episode member =>
      ⟨readsBack episode member _ List.mem_cons_self (built episode member).sound.deltaMax_isFinite,
        readsBack episode member _ (List.mem_cons_of_mem _ List.mem_cons_self) (finite episode member)⟩
  obtain ⟨ids, inner, later, finished, enrolled, based⟩ :=
    exists_finish (.inMemory capacity_pos) elsewhere directory episodes
  obtain ⟨sameIds, outer, written, persisted, again, -⟩ := exists_finish
    { Store.inMemory capacity_pos with directory := some directory, indexLimit }
    (files.createDirectories directory).2 directory episodes
  obtain ⟨rfl, -, same⟩ := again.unique enrolled rfl rfl
  have inMemory : memory = (ids, ⟨capacity, inner, later⟩) := finished
  have onDisk : disk = (ids, ⟨capacity, outer, written⟩) := by
    rw [← persisted, ← beginning]
  rw [onDisk] at shown ⊢
  rw [inMemory]
  refine ⟨matches_of_cached ?_ same fun id known => ?_, rfl, shown⟩
  · exact (enrolled.records_inMemory rfl fits based later).trans shown.symm
  · rw [shown, List.map_zipWith] at known
    rwa [again.cached_all rfl fits, List.map_zipWith]

/-- A tick with numbers that binary32 has to round. -/
def fractionTick : Tick :=
  { Tick.zero with filterAlpha := 0.3, filterDelta := 0.7 }

/-- Two episodes, one of them without ticks. -/
theorem matches_inMemory_emptyLogs :
    let episodes : List Episode := [.ofTicks [fractionTick] .spike, .empty .align]
    let memory := (Session.mk 4 (.inMemory (by decide)) emptyLogs).finish "logs" episodes
    let disk := (opened "logs" (show 0 < 4 by decide) 100 emptyLogs).finish "logs" episodes
    Matches memory.2 disk.2 ∧ memory.1 = disk.1 ∧
      disk.2.store.records disk.2.files = [⟨0, 1, "SPIKE", .spike, 0.7, 0.3⟩, ⟨1, 0, "ALIGN", .align, 0, 0⟩] := by
  intro episodes memory disk
  have empty : (emptyLogs.createDirectories "logs").2.list "logs" = .ok [] := by
    rw [emptyLogs_created]
    exact emptyLogs_list
  have built : ∀ episode ∈ episodes, episode.Built := by
    intro episode member
    simp only [episodes, List.mem_cons, List.not_mem_nil, or_false] at member
    rcases member with rfl | rfl
    · exact .ofTicks [fractionTick] .spike
    · exact .empty .align
  obtain ⟨matching, same, listed⟩ := matches_inMemory emptyLogs_usable empty (show 0 < 4 by decide) 100 emptyLogs
    episodes (by decide) built (by decide +kernel) (by decide +kernel) (by decide +kernel)
  have given : memory.1 = [0, 1] := by decide +kernel
  refine ⟨matching, same, ?_⟩
  rw [listed, ← same, given]
  decide +kernel

end Session

end EpisodicReplay
