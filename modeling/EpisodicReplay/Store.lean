import EpisodicReplay.Episode.File
import EpisodicReplay.Log
import EpisodicReplay.Ring
import EpisodicReplay.Store.Index

/-!
Finished episodes: a bounded cache in front of one file per episode and an index. The files are what lasts; the
cache drops its oldest record once it is full.
-/

namespace EpisodicReplay

/-- A store without a directory keeps its episodes in the cache alone. -/
structure Store (capacity : Nat) where
  cache : Ring EpisodeRecord capacity
  /-- Nothing once every id has been given out. -/
  nextId : Option UInt32
  directory : Option String
  indexLimit : Nat

namespace Store
variable {capacity : Nat}

def standardCapacity : Nat := 32

theorem standardCapacity_pos : 0 < standardCapacity := by
  decide

def indexName : String := "erb_index.jsonl"

def inMemory (capacity_pos : 0 < capacity) : Store capacity :=
  ⟨.empty capacity_pos, some 0, none, Log.standardLimit⟩

def withIndexLimit (store : Store capacity) (limit : Nat) : Store capacity :=
  { store with indexLimit := limit }

def isPersistent (store : Store capacity) : Bool :=
  store.directory.isSome

/-- The id after another one, if there is one. -/
def successor? (id : UInt32) : Option UInt32 :=
  if id.toNat + 1 < UInt32.size then some (id + 1) else none

def indexIds (files : Files) (directory : String) : List UInt32 :=
  match files.read (Path.join directory indexName) with
  | .ok content => Index.readIds content
  | .error _ => []

/-- The ids in the names of episode files. -/
def fileIds (files : Files) (directory : String) : List UInt32 :=
  match files.list directory with
  | .ok names => names.filterMap EpisodeFile.idOfName?
  | .error _ => []

/-- The id after all that the index or a file name shows. -/
def recoveredId? (files : Files) (directory : String) : Option UInt32 :=
  match (indexIds files directory ++ fileIds files directory).max? with
  | none => some 0
  | some greatest => successor? greatest

/-- Reads an episode file. An episode without ticks does not count. -/
def readEpisode (files : Files) (path : String) : Except Failure Episode :=
  match files.read path >>= EpisodeFile.read with
  | .error fault => .error (.file path fault)
  | .ok episode => if episode.isEmpty then .error (.emptyEpisode path) else .ok episode

def loadEpisode (store : Store capacity) (files : Files) (id : UInt32) : Except Failure Episode :=
  match store.directory with
  | none => .error .notPersistent
  | some directory => readEpisode files (Path.join directory (EpisodeFile.name id))

/-- Puts the newest indexed episodes back into the cache. -/
def reload (store : Store capacity) (files : Files) (ids : List UInt32) : Store capacity :=
  ids.foldl (fun store id =>
    match store.loadEpisode files id with
    | .ok episode => { store with cache := (store.cache.push ⟨id, episode⟩).2 }
    | .error _ => store) store

/-- Opens a store on a directory, which is created if need be. Without it the store works in memory. -/
def openAt (capacity_pos : 0 < capacity) (directory : String) : StateM Files (Store capacity) := do
  let (created, files) := (← get).createDirectories directory
  set files
  match created with
  | .error _ => return inMemory capacity_pos
  | .ok () =>
    let ids := indexIds files directory
    let store := { inMemory capacity_pos with
      nextId := recoveredId? files directory
      directory := some directory }
    return store.reload files (ids.drop (ids.length - capacity))

/-- Writes an episode to its file and its summary to the index. -/
def persist (directory : String) (id : UInt32) (episode : Episode) (indexLimit : Nat) : FileAction Unit := do
  FileAction.write (Path.join directory (EpisodeFile.name id)) (EpisodeFile.write episode).toUTF8
  Log.append (Path.join directory indexName) (IndexRecord.ofEpisode id episode).line indexLimit

/-- Gives an episode the next id and caches it. Without an id the episode is dropped. -/
def enroll (store : Store capacity) (episode : Episode) : Option UInt32 × Store capacity :=
  match store.nextId with
  | none => (none, store)
  | some id => (some id, { store with nextId := successor? id, cache := (store.cache.push ⟨id, episode⟩).2 })

/-- Enrolls an episode and writes it down. The id is given out even if writing fails. -/
def finalize (store : Store capacity) (episode : Episode) : StateM Files (Option UInt32 × Store capacity) := do
  let (id?, next) := store.enroll episode
  match id?, store.directory with
  | some id, some directory =>
    let _ ← (persist directory id episode store.indexLimit).run
    return (id?, next)
  | _, _ => return (id?, next)

/-- The record a number of places before the newest. -/
def recent? (store : Store capacity) (offset : Nat) : Option EpisodeRecord :=
  store.cache.recent? offset

/-- The cached records, newest first. -/
def recent (store : Store capacity) : List EpisodeRecord :=
  store.cache.toList.reverse

/-- The newest cached episodes up to a count, where zero means all. -/
def recentEpisodes (store : Store capacity) (count : Nat) : List Episode :=
  (if count = 0 then store.recent else store.recent.take count).map EpisodeRecord.episode

/-- Looks in the cache first and then for the episode's file. -/
def episode? (store : Store capacity) (files : Files) (id : UInt32) : Option Episode :=
  match store.cache.toList.find? (·.id == id) with
  | some record => some record.episode
  | none => (store.loadEpisode files id).toOption

/-- The readable records of the index file. -/
def readIndex (store : Store capacity) (files : Files) : List IndexRecord :=
  match store.directory.map fun directory => files.read (Path.join directory indexName) with
  | some (.ok content) => Index.readRecords content
  | _ => []

/-- Summaries of the known episodes, oldest first: the index, or the cache of a store in memory. -/
def records (store : Store capacity) (files : Files) : List IndexRecord :=
  if store.isPersistent then store.readIndex files
  else store.cache.toList.map fun record => .ofEpisode record.id record.episode

/-- The known episodes that share a bit with a mask. -/
def tagged (store : Store capacity) (files : Files) (mask : Tag) : List IndexRecord :=
  (store.records files).filter (·.tag.intersects mask)

end Store

end EpisodicReplay
