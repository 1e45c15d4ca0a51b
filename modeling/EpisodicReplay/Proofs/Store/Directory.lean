import EpisodicReplay.Proofs.Episode.Name
import EpisodicReplay.Proofs.Log
import EpisodicReplay.Proofs.Store.Index
import EpisodicReplay.Store

/-!
The directory of a store. It shows ids in its index and in the names of its files; an episode that is written down
shows its own id there and no other new one.
-/

namespace EpisodicReplay

/-- The maximum of two ids is the greater one. -/
instance lawfulOrderMax : Std.LawfulOrderMax UInt32 :=
  have choice (left right : UInt32) : max left right = if left ≤ right then right else left := rfl
  .of_max_le_iff
    (by
      intro left right bound
      rw [choice]
      split <;> simp only [UInt32.le_iff_toNat_le] at * <;> omega)
    (by
      intro left right
      rw [choice]
      split
      · exact .inr rfl
      · exact .inl rfl)

namespace Store
variable {capacity : Nat} {files later : Files} {directory : String} {place : Location} {id next greatest : UInt32}
  {episode : Episode}

theorem indexName_isName : Path.IsName indexName :=
  ⟨by decide, by decide, by decide, by decide, by decide, by decide⟩

theorem indexName_ne_name (id : UInt32) : indexName ≠ EpisodeFile.name id := by
  intro equal
  have read := EpisodeFile.idOfName?_name id
  rw [← equal] at read
  cases read

/-- The directory of a store. Its path leaves room for the names of files. -/
structure HomeAt (files : Files) (directory : String) (place : Location) : Prop where
  directoryAt : files.DirectoryAt directory place
  room : directory.utf8ByteSize + 1 + EpisodeFile.longestName ≤ Path.longestPath

theorem HomeAt.of_sameBut {other : Location} (home : HomeAt files directory place) (same : files.SameBut later other)
    (noDirectory : files.entry? other ≠ some .directory) : HomeAt later directory place :=
  ⟨home.directoryAt.of_sameBut same noDirectory, home.room⟩

theorem HomeAt.episodeAt (home : HomeAt files directory place) (id : UInt32) :
    files.FileAt (Path.join directory (EpisodeFile.name id)) (place ++ [EpisodeFile.name id]) :=
  home.directoryAt.fileAt (EpisodeFile.name_isName id)
    (Nat.le_trans (Nat.add_le_add_left (EpisodeFile.utf8ByteSize_name_le id) _) home.room)

theorem HomeAt.indexAt (home : HomeAt files directory place) :
    files.FileAt (Path.join directory indexName) (place ++ [indexName]) :=
  home.directoryAt.fileAt indexName_isName (Nat.le_trans (Nat.add_le_add_left (by decide) _) home.room)

/-- In an empty directory no name is taken. -/
theorem HomeAt.entry?_of_empty (home : HomeAt files directory place) (empty : files.list directory = .ok [])
    (name : String) : files.entry? (place ++ [name]) = none := by
  obtain ⟨names, listed, member⟩ := home.directoryAt.list_eq
  obtain rfl := Except.ok.inj (listed.symm.trans empty)
  exact Option.not_isSome_iff_eq_none.mp ((member name).not.mp List.not_mem_nil)

section shown

/-- The ids that a directory shows. -/
def shownIds (files : Files) (directory : String) : List UInt32 :=
  indexIds files directory ++ fileIds files directory

theorem HomeAt.mem_fileIds (home : HomeAt files directory place) : id ∈ fileIds files directory ↔
    ∃ name, Option.isSome ( files.entry? (place ++ [name])) ∧ EpisodeFile.idOfName? name = some id := by
  obtain ⟨names, listed, member⟩ := home.directoryAt.list_eq
  simp only [fileIds, listed, List.mem_filterMap, member]

/-- A reader of the index reads its content, which is empty if there is no file. -/
theorem HomeAt.read_index {α : Type} (home : HomeAt files directory place) (read : ByteArray → List α)
    (nothing : read .empty = []) :
    (match files.read (Path.join directory indexName) with
      | .ok content => read content
      | .error _ => []) = read (files.contentAt (place ++ [indexName])) := by
  cases found : files.entry? (place ++ [indexName]) with
  | none => simp [Files.read, home.indexAt.find_eq, found, Files.contentAt, nothing, bind, Except.bind]
  | some entry =>
      cases entry with
      | file content => simp [home.indexAt.read_file found, Files.contentAt, found]
      | directory =>
          simp [Files.read, home.indexAt.find_eq, found, Files.contentAt, nothing, bind, Except.bind, throw,
            throwThe, MonadExceptOf.throw]

theorem HomeAt.indexIds_eq (home : HomeAt files directory place) :
    indexIds files directory = Index.readIds (files.contentAt (place ++ [indexName])) :=
  home.read_index Index.readIds rfl

theorem HomeAt.readIndex_eq {store : Store capacity} (home : HomeAt files directory place)
    (based : store.directory = some directory) :
    store.readIndex files = Index.readRecords (files.contentAt (place ++ [indexName])) := by
  rw [readIndex, based, Option.map_some, ← home.read_index Index.readRecords rfl]
  cases files.read (Path.join directory indexName) <;> rfl

theorem successor?_eq_some : successor? id = some next ↔ next.toNat = id.toNat + 1 := by
  have size : UInt32.size = 4294967296 := rfl
  unfold successor?
  split
  case isTrue below =>
    have exact : (id + 1).toNat = id.toNat + 1 := by
      rw [UInt32.toNat_add]
      exact Nat.mod_eq_of_lt below
    rw [Option.some.injEq, ← UInt32.toNat_inj, exact]
    exact eq_comm
  case isFalse last =>
    have := next.toNat_lt
    simp only [reduceCtorEq, false_iff]
    omega

theorem lt_of_successor? (succeeds : successor? id = some next) : id < next := by
  rw [UInt32.lt_iff_toNat_lt, successor?_eq_some.mp succeeds]
  exact Nat.lt_succ_self _

/-- The recovered id lies above every id that is shown. -/
theorem lt_recoveredId? (recovered : recoveredId? files directory = some next) :
    ∀ id ∈ shownIds files directory, id < next := by
  intro id member
  unfold recoveredId? at recovered
  split at recovered
  case h_1 none_ =>
    rw [List.max?_eq_none_iff] at none_
    rw [shownIds, none_] at member
    cases member
  case h_2 greatest found =>
    have bound := (List.max?_eq_some_iff.mp found).2 id member
    exact Std.lt_of_le_of_lt bound (lt_of_successor? recovered)

theorem recoveredId?_of_greatest (member : greatest ∈ shownIds files directory)
    (bound : ∀ id ∈ shownIds files directory, id ≤ greatest) : recoveredId? files directory = successor? greatest := by
  have found : (indexIds files directory ++ fileIds files directory).max? = some greatest :=
    List.max?_eq_some_iff.mpr ⟨member, bound⟩
  rw [recoveredId?, found]

/-- An id that is still to come has no file. -/
theorem HomeAt.fresh (home : HomeAt files directory place) (recovered : recoveredId? files directory = some id) :
    files.entry? (place ++ [EpisodeFile.name id]) = none := by
  rw [← Option.not_isSome_iff_eq_none]
  intro present
  have shown := home.mem_fileIds.mpr ⟨_, present, EpisodeFile.idOfName?_name id⟩
  exact Std.lt_irrefl (lt_recoveredId? recovered id (List.mem_append_right _ shown))

end shown

section persist

/-- What writing an episode down does to the files. -/
structure Persisted (files later : Files) (directory : String) (place : Location) (id : UInt32) (episode : Episode) :
    Prop where
  home : HomeAt later directory place
  written : later.entry? (place ++ [EpisodeFile.name id]) = some (.file (EpisodeFile.write episode).toUTF8)
  kept : ∀ other, other ≠ place ++ [EpisodeFile.name id] → other ≠ place ++ [indexName] →
    later.entry? other = files.entry? other
  indexIds : ∀ shown ∈ indexIds later directory, shown ∈ Store.indexIds files directory ∨ shown = id

theorem place_ne (place : Location) (id : UInt32) : place ++ [indexName] ≠ place ++ [EpisodeFile.name id] :=
  fun equal => indexName_ne_name id (List.singleton_inj.mp (List.append_cancel_left equal))

/-- An episode file is written before its line goes to the index. -/
theorem run_persist (home : HomeAt files directory place)
    (free : files.entry? (place ++ [EpisodeFile.name id]) ≠ some .directory) (episode : Episode) (limit : Nat) :
    ∃ written, (persist directory id episode limit).run.run files =
        (Log.append (Path.join directory indexName) (IndexRecord.ofEpisode id episode).line limit).run.run written ∧
      HomeAt written directory place ∧ files.SameBut written (place ++ [EpisodeFile.name id]) ∧
      written.entry? (place ++ [EpisodeFile.name id]) = some (.file (EpisodeFile.write episode).toUTF8) := by
  have inside : place ++ [EpisodeFile.name id] ≠ [] := by simp
  have same := Files.put_sameBut files inside (.file (EpisodeFile.write episode).toUTF8)
  refine ⟨_, ?_, home.of_sameBut same free, same, ?_⟩
  · rw [persist, run_bind, FileAction.run_write (home.episodeAt id) free]
  · rw [Files.entry?_put inside, if_pos rfl]

theorem persist_persisted (home : HomeAt files directory place) (limit : Nat)
    (fresh : files.entry? (place ++ [EpisodeFile.name id]) = none) :
    Persisted files ((persist directory id episode limit).run.run files).2 directory place id episode := by
  obtain ⟨written, run, writtenHome, same, there⟩ := run_persist home (by rw [fresh]; simp) episode limit
  have index : written.contentAt (place ++ [indexName]) = files.contentAt (place ++ [indexName]) := by
    rw [Files.contentAt, same.entry _ (place_ne place id), Files.contentAt]
  rw [run]
  by_cases blocked : written.entry? (place ++ [indexName]) = some .directory
  · have refused : written.locateFile (Path.join directory indexName) = .error .isDirectory := by
      rw [writtenHome.indexAt.locateFile_eq, blocked]
    obtain ⟨failure, run⟩ :=
      Log.appendBytes_refused refused ((IndexRecord.ofEpisode id episode).line ++ "\n").toUTF8 limit
    rw [Log.append_eq, run]
    refine ⟨writtenHome, there, fun other elsewhere _ => same.entry other elsewhere, fun shown member => ?_⟩
    rw [writtenHome.indexIds_eq, index, ← home.indexIds_eq] at member
    exact .inl member
  · obtain ⟨later, run, sameIndex, content⟩ :=
      @Log.append_file _ (IndexRecord.ofEpisode id episode).line limit _ _ writtenHome.indexAt blocked
    rw [run]
    have laterHome := writtenHome.of_sameBut sameIndex blocked
    refine ⟨laterHome, ?_, fun other elsewhere otherIndex => ?_, fun shown member => ?_⟩
    · rw [sameIndex.entry _ (place_ne place id).symm]
      exact there
    · rw [sameIndex.entry other otherIndex, same.entry other elsewhere]
    · rw [laterHome.indexIds_eq, Files.contentAt, content, index] at member
      rcases Index.mem_readIds_append member with earlier | own
      · left
        rw [home.indexIds_eq]
        unfold Log.kept at earlier
        split at earlier
        · cases earlier
        · exact earlier
      · exact .inr own

/-- A written episode is the greatest one that the directory shows. -/
theorem Persisted.recoveredId? (persisted : Persisted files later directory place id episode)
    (home : HomeAt files directory place) (recovered : recoveredId? files directory = some id) :
    Store.recoveredId? later directory = successor? id := by
  have below := lt_recoveredId? recovered
  apply recoveredId?_of_greatest
  · refine List.mem_append_right _ (persisted.home.mem_fileIds.mpr ⟨_, ?_, EpisodeFile.idOfName?_name id⟩)
    rw [persisted.written]
    rfl
  · intro shown member
    rcases List.mem_append.mp member with inIndex | inFiles
    · rcases persisted.indexIds shown inIndex with earlier | rfl
      · exact Std.le_of_lt (below shown (List.mem_append_left _ earlier))
      · exact Std.le_refl _
    · obtain ⟨name, present, read⟩ := persisted.home.mem_fileIds.mp inFiles
      by_cases own : name = EpisodeFile.name id
      · rw [own, EpisodeFile.idOfName?_name] at read
        exact Std.le_of_eq (Option.some.inj read).symm
      · by_cases index : name = indexName
        · rw [index] at read
          cases read
        · have behind {other : String} (different : name ≠ other) : place ++ [name] ≠ place ++ [other] :=
            fun equal => different (List.singleton_inj.mp (List.append_cancel_left equal))
          rw [persisted.kept _ (behind own) (behind index)] at present
          exact Std.le_of_lt (below shown (List.mem_append_right _ (home.mem_fileIds.mpr ⟨name, present, read⟩)))

end persist

section opening
variable {capacity_pos : 0 < capacity} {store : Store capacity}

/-- The store of a directory that is there, before any episode is loaded. -/
def unloaded (capacity_pos : 0 < capacity) (files : Files) (directory : String) : Store capacity :=
  { inMemory capacity_pos with nextId := recoveredId? files directory, directory := some directory }

theorem run_openAt (created : files.createDirectories directory = (.ok (), later)) :
    (openAt capacity_pos directory).run files =
      ((unloaded capacity_pos later directory).reload later
        ((indexIds later directory).drop ((indexIds later directory).length - capacity)), later) := by
  unfold openAt
  simp only [StateT.run_bind, StateT.run_get, StateT.run_set, pure_bind, created]
  rfl

/-- A store that opens an empty directory begins like one in memory. -/
theorem run_openAt_empty (created : files.createDirectories directory = (.ok (), later))
    (home : HomeAt later directory place) (empty : later.list directory = .ok []) :
    (openAt capacity_pos directory).run files =
      ({ inMemory capacity_pos with directory := some directory }, later) := by
  have noIndex : indexIds later directory = [] := by
    rw [home.indexIds_eq, Files.contentAt, home.entry?_of_empty empty]
    rfl
  have noFiles : fileIds later directory = [] := by
    rw [fileIds, empty]
    rfl
  have first : recoveredId? later directory = some 0 := by
    rw [recoveredId?, noIndex, noFiles]
    rfl
  rw [run_openAt created, noIndex, unloaded, first, List.drop_nil]
  rfl

/-- Loading episodes changes the cache only. -/
theorem reload_eq (store : Store capacity) (files : Files) (ids : List UInt32) :
    ∃ cache, store.reload files ids = { store with cache } := by
  unfold reload
  induction ids generalizing store with
  | nil => exact ⟨store.cache, rfl⟩
  | cons id ids inductionHypothesis =>
      rw [List.foldl_cons]
      split
      · exact inductionHypothesis _
      · exact inductionHypothesis _

/-- A store that opened its directory goes on behind the ids that are shown there. -/
theorem openAt_nextId (created : files.createDirectories directory = (.ok (), later)) :
    ((openAt capacity_pos directory).run files).1.nextId = recoveredId? later directory ∧
      ((openAt capacity_pos directory).run files).1.directory = some directory ∧
      ((openAt capacity_pos directory).run files).2 = later := by
  rw [run_openAt created]
  obtain ⟨cache, reloaded⟩ := reload_eq (unloaded capacity_pos later directory) later
    ((indexIds later directory).drop ((indexIds later directory).length - capacity))
  rw [reloaded]
  exact ⟨rfl, rfl, rfl⟩

theorem run_finalize (store : Store capacity) (files : Files) (episode : Episode) :
    (store.finalize episode).run files =
      match store.enroll episode with
      | (id?, next) =>
        match id?, store.directory with
        | some id, some directory => ((id?, next), ((persist directory id episode store.indexLimit).run.run files).2)
        | _, _ => ((id?, next), files) := by
  unfold finalize
  rcases store.enroll episode with ⟨_ | id, next⟩
  · rfl
  · cases store.directory <;> rfl

theorem finalize_of_none (exhausted : store.nextId = none) :
    (store.finalize episode).run files = ((none, store), files) := by
  rw [run_finalize, enroll, exhausted]

theorem finalize_of_some (available : store.nextId = some id) (based : store.directory = some directory) :
    (store.finalize episode).run files =
      ((some id, { store with nextId := successor? id, cache := (store.cache.push ⟨id, episode⟩).2 }),
        ((persist directory id episode store.indexLimit).run.run files).2) := by
  rw [run_finalize, enroll, available]
  simp only [based]

end opening

end Store

end EpisodicReplay
