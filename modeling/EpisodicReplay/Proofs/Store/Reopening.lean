import EpisodicReplay.Proofs.Store.Series

/-!
What a store finds when it opens its directory again. It scans the ids that the index lists, loads the newest of their
files that fit into its cache, and goes on with the same id.
-/

namespace EpisodicReplay

/-- A record with what the file of another one is read as. -/
structure EpisodeRecord.ReadsAs (original copy : EpisodeRecord) : Prop where
  id : copy.id = original.id
  episode : EpisodeFile.read (EpisodeFile.write original.episode).toUTF8 = .ok copy.episode

namespace Store
variable {capacity : Nat} {store : Store capacity} {files : Files} {items originals : List EpisodeRecord}

/-- A store that can load every record caches the newest of them behind its own. -/
theorem exists_reload (holds : store.cache.toList = items.rtake capacity)
    (loads : ∀ original ∈ originals, ∃ copy, EpisodeFile.read (EpisodeFile.write original.episode).toUTF8 = .ok copy ∧
      store.loadEpisode files original.id = .ok copy) : ∃ copies,
    List.Forall₂ EpisodeRecord.ReadsAs originals copies ∧
      (store.reload files (originals.map EpisodeRecord.id)).cache.toList = (items ++ copies).rtake capacity := by
  induction originals generalizing store items with
  | nil => exact ⟨[], .nil, by rw [List.append_nil]; exact holds⟩
  | cons original rest inductionHypothesis =>
      obtain ⟨copy, read, loaded⟩ := loads original List.mem_cons_self
      let next : Store capacity := { store with cache := (store.cache.push ⟨original.id, copy⟩).2 }
      have pushed : store.reload files ((original :: rest).map EpisodeRecord.id) =
          next.reload files (rest.map EpisodeRecord.id) := by
        rw [reload, List.map_cons, List.foldl_cons, loaded]
        rfl
      have nextLoads : ∀ other ∈ rest, ∃ copy,
          EpisodeFile.read (EpisodeFile.write other.episode).toUTF8 = .ok copy ∧
            next.loadEpisode files other.id = .ok copy :=
        fun other member => loads other (List.mem_cons_of_mem original member)
      obtain ⟨copies, copied, cached⟩ :=
        @inductionHypothesis next _ (Ring.push_toList_rtake holds ⟨original.id, copy⟩) nextLoads
      refine ⟨⟨original.id, copy⟩ :: copies, .cons ⟨rfl, read⟩ copied, ?_⟩
      rw [pushed, cached, List.append_assoc, List.singleton_append]

end Store

/-- A scan of record lines shows the ids of the records. -/
theorem Index.readIds_of_lines {content : ByteArray} {records : List IndexRecord}
    (lines : Index.textLines content = records.map IndexRecord.line) :
    Index.readIds content = records.map IndexRecord.id := by
  have seen : Index.idOfLine? ∘ IndexRecord.line = some ∘ IndexRecord.id := funext Index.idOfLine?_line
  rw [Index.readIds, lines, List.filterMap_map, seen, List.filterMap_eq_map]

namespace Session
variable {capacity : Nat} {capacity_pos : 0 < capacity} {indexLimit : Nat} {files : Files} {directory : String}
  {place : Location} {session : Session} {ledger : Ledger} {originals : List EpisodeRecord}

/-- A store that opens its directory again loads the files of the newest ids that it scans. -/
theorem Keeps.cache_reopened (keeps : session.Keeps directory place ledger)
    (noted : ∀ original ∈ originals, ledger.episode? original.id = some original.episode)
    (newest : (Store.indexIds session.files directory).drop
      ((Store.indexIds session.files directory).length - capacity) = originals.map EpisodeRecord.id) :
    List.Forall₂ EpisodeRecord.ReadsAs originals
      (opened directory capacity_pos indexLimit session.files).store.cache.toList := by
  have run := @Store.run_openAt capacity _ _ _ capacity_pos keeps.consistent.home.directoryAt.createDirectories_eq
  let unloaded := Store.unloaded capacity_pos session.files directory
  have loads : ∀ original ∈ originals, ∃ copy,
      EpisodeFile.read (EpisodeFile.write original.episode).toUTF8 = .ok copy ∧
        unloaded.loadEpisode session.files original.id = .ok copy := by
    intro original member
    obtain ⟨copy, read, -, -, loaded⟩ := @Filed.loadEpisode_of_some _ _ _ _ _ _ _ unloaded keeps.filed
      keeps.consistent.home rfl (noted original member)
    exact ⟨copy, read, loaded⟩
  obtain ⟨copies, copied, cached⟩ := @Store.exists_reload _ unloaded _ [] originals (by rw [List.rtake_nil]; rfl) loads
  have few : copies.length ≤ capacity := by
    have counted := congrArg List.length newest
    rw [List.length_drop, List.length_map] at counted
    rw [← copied.length_eq, ← counted]
    omega
  have shown : (opened directory capacity_pos indexLimit session.files).store.cache.toList = copies := by
    rw [List.nil_append, List.rtake, Nat.sub_eq_zero_of_le few, List.drop_zero, ← newest] at cached
    rw [← cached]
    exact congrArg (fun result => result.1.cache.toList) run
  rwa [shown]

/-- What is found of episodes that a session has finished when its directory is opened again. -/
structure Restores (directory : String) (start : Session) (episodes : List Episode) (first : Nat) : Prop where
  ids : (start.finish directory episodes).1.map UInt32.toNat = List.range (min episodes.length UInt32.size)
  listed : start.ListedFrom directory episodes first
  scanned : Store.indexIds (start.finish directory episodes).2.files directory =
    (start.finish directory episodes).1.drop first
  newest : (Store.indexIds (start.finish directory episodes).2.files directory).getLast? =
    (start.finish directory episodes).1.getLast?
  /-- The newest listed episodes are in the cache as their files tell, the oldest of them first. -/
  reopened : ∀ {capacity : Nat} (capacity_pos : 0 < capacity) (indexLimit : Nat),
    let again := opened directory capacity_pos indexLimit (start.finish directory episodes).2.files
    again.store.isPersistent ∧ again.store.nextId = (start.finish directory episodes).2.store.nextId ∧
      List.Forall₂ EpisodeRecord.ReadsAs
        ((List.zipWith EpisodeRecord.mk (start.finish directory episodes).1 episodes).drop
          (max first ((start.finish directory episodes).1.length - capacity)))
        again.store.cache.toList

/-- Episodes that are finished on an empty directory are found again as far as the index lists them. -/
theorem existsUnique_restores (usable : Usable files directory)
    (empty : (files.createDirectories directory).2.list directory = .ok []) (capacity_pos : 0 < capacity)
    (indexLimit : Nat) (episodes : List Episode)
    (writes : ∀ episode ∈ episodes, episode.Built ∧ episode.isEmpty = false) :
    ∃! first, Restores directory (opened directory capacity_pos indexLimit files) episodes first := by
  obtain ⟨place, keeps⟩ := @opened_keeps_empty _ _ _ capacity_pos indexLimit usable empty
  have beginning := @opened_of_empty _ capacity_pos indexLimit _ _ usable empty
  generalize opened directory capacity_pos indexLimit files = start at keeps beginning
  obtain ⟨indexed, nothing⟩ := keeps.consistent.indexed_of_empty (by rw [beginning]; exact empty)
  obtain ⟨first, listed, lines⟩ := indexed.exists_listedFrom nothing episodes
  obtain ⟨ledger, lastKeeps, noted⟩ := keeps.finish episodes writes
  obtain ⟨ids, now, later, finished, enrolled, -⟩ := exists_finish start.store start.files directory episodes
  have scanned : Store.indexIds (start.finish directory episodes).2.files directory =
      (start.finish directory episodes).1.drop first := by
    rw [lastKeeps.consistent.home.indexIds_eq, Index.readIds_of_lines lines, List.map_drop,
      map_zipWith_finish fun _ _ => rfl]
  refine ⟨first, ⟨?_, listed, scanned, ?_, fun {capacity} capacity_pos indexLimit => ?_⟩, fun other restores =>
    Nat.le_antisymm (listed.le_of_listedFrom restores.listed) (restores.listed.le_of_listedFrom listed)⟩
  · rw [show start.finish directory episodes = _ from finished]
    exact enrolled.range (by rw [beginning]; rfl)
  · rw [scanned]
    rcases listed.inside with rfl | within
    · rw [List.drop_zero]
    · rw [List.getLast?_drop, if_neg (Nat.not_le.mpr within)]
  · obtain ⟨again, files⟩ := @Consistent.reopened _ _ _ _ capacity_pos indexLimit lastKeeps.consistent
    refine ⟨?_, ?_, ?_⟩
    · rw [Store.isPersistent, again.based]
      rfl
    · rw [again.nextId, files, lastKeeps.consistent.nextId]
    · refine lastKeeps.cache_reopened (fun original member => noted original (List.mem_of_mem_drop member)) ?_
      have inside := listed.inside
      rw [scanned, List.map_drop, map_zipWith_finish fun _ _ => rfl, List.drop_drop, List.length_drop]
      congr 1
      omega

/-- Two episodes, of which the second one empties the index. -/
theorem existsUnique_restores_emptyLogs : ∃! first, Restores "logs" (opened "logs" (show 0 < 1 by decide) 0 emptyLogs)
    [(Episode.empty .spike).push .zero |>.2, (Episode.empty .align).push .zero |>.2] first := by
  refine existsUnique_restores emptyLogs_usable ?_ (by decide) 0 _ ?_
  · rw [emptyLogs_created]
    exact emptyLogs_list
  · intro episode member
    simp only [List.mem_cons, List.not_mem_nil, or_false] at member
    rcases member with rfl | rfl
    · exact ⟨.push (.empty .spike) .zero, rfl⟩
    · exact ⟨.push (.empty .align) .zero, rfl⟩

end Session

end EpisodicReplay
