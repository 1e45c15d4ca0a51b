import EpisodicReplay.Proofs.Store.Durability

/-!
Which finished episodes the index shows. A record is read back if both of its numbers are finite. The largest delta
always is; the mean of the filter alphas is not when their sum leaves the range of binary32.
-/

namespace EpisodicReplay

namespace IndexRecord
open Json (Member Spells Value)
variable {record : IndexRecord}

/-- A record is read back just if its two numbers are. -/
theorem ofLine?_line {deltaMax alphaMean : Value} (short : record.length < UInt64.size)
    (spelledDelta : Spells (Json.writeFloat32 record.deltaMax) deltaMax)
    (spelledAlpha : Spells (Json.writeFloat32 record.alphaMean) alphaMean) :
    ofLine? record.line = deltaMax.float32?.bind fun delta => alphaMean.float32?.map fun alpha =>
      { record with deltaMax := delta, alphaMean := alpha } := by
  let fields := (members spelledDelta spelledAlpha).map Member.field
  have shown : Value.fields? ["idx", "len", "tag", "tag_mask", "delta_max", "alpha_mean"]
      (.object ((members spelledDelta spelledAlpha).map Member.read)) = some fields := by
    rw [Json.fields?_object]
    simp [fields, members, Member.field]
  have id : Json.required? fields "idx" Value.uint32? = some record.id := Json.uint32?_digits record.id
  have length : Json.required? fields "len" Value.count? = some record.length := Json.natBelow?_digits short short
  have label : Json.required? fields "tag" Value.string? = some record.label.toList := Json.text?_map_piece _
  have tag : Json.required? fields "tag_mask" Tag.ofJson? = some record.tag :=
    congrArg (Option.map Tag.mk) (Json.uint32?_digits record.tag.bits)
  have delta : Json.required? fields "delta_max" Value.float32? = deltaMax.float32? := rfl
  have alpha : Json.optional? fields "alpha_mean" Value.float32? 0 = alphaMean.float32? := rfl
  generalize fields = known at shown id length label tag delta alpha
  rw [ofLine?, line, String.toList_ofList, (spells_members spelledDelta spelledAlpha).parse?, Option.bind_some, ofJson?,
    shown]
  simp only [id, length, label, tag, delta, alpha, Option.bind_eq_bind, Option.bind_some, String.ofList_toList]
  cases deltaMax.float32? <;> cases alphaMean.float32? <;> rfl

theorem float32?_isSome {number : Json.Number} (valued : number.value?.isSome) :
    ∃ value, Value.float32? (.number number) = some value := by
  obtain ⟨value, same⟩ := Option.isSome_iff_exists.mp valued
  exact ⟨value.toFloat32, by rw [Value.float32?, same, Option.map_some]⟩

/-- Finite numbers are read, so that all of the record is back but the last places of its numbers. -/
theorem exists_ofLine?_line (short : record.length < UInt64.size) (deltaFinite : record.deltaMax.isFinite = true)
    (alphaFinite : record.alphaMean.isFinite = true) :
    ∃ deltaMax alphaMean, ofLine? record.line = some { record with deltaMax, alphaMean } := by
  obtain ⟨deltaNumber, spelledDelta, deltaValued⟩ := Json.spells_writeFloat32_of_isFinite deltaFinite
  obtain ⟨alphaNumber, spelledAlpha, alphaValued⟩ := Json.spells_writeFloat32_of_isFinite alphaFinite
  obtain ⟨deltaMax, deltaRead⟩ := float32?_isSome deltaValued
  obtain ⟨alphaMean, alphaRead⟩ := float32?_isSome alphaValued
  exact ⟨deltaMax, alphaMean, by rw [ofLine?_line short spelledDelta spelledAlpha, deltaRead, alphaRead]; rfl⟩

/-- A mean that is not finite is written as null, and null is no mean. -/
theorem ofLine?_line_eq_none (short : record.length < UInt64.size) (alphaInfinite : record.alphaMean.isFinite = false) :
    ofLine? record.line = none := by
  obtain ⟨deltaMax, spelledDelta⟩ := Json.spells_writeFloat32 record.deltaMax
  rw [ofLine?_line short spelledDelta (Json.spells_writeFloat32_of_not_isFinite alphaInfinite)]
  cases deltaMax.float32? <;> rfl

end IndexRecord

namespace Index
variable {content : ByteArray}

/-- Content of whole lines of text. -/
structure Whole (content : ByteArray) : Prop where
  ended : Text.Ended content
  text : ∀ line ∈ Text.lines content, (Text.decode? line).isSome

theorem Whole.isLegible (whole : Whole content) : Text.isLegible content = true :=
  List.all_eq_true.mpr whole.text

theorem Whole.textLines_append (whole : Whole content) (more : ByteArray) :
    textLines (content ++ more) = textLines content ++ textLines more := by
  rw [Index.textLines_append whole.ended, if_pos whole.isLegible]

theorem whole_empty : Whole .empty :=
  ⟨.inl rfl, List.forall_mem_nil _⟩

theorem lines_line (record : IndexRecord) : Text.lines (record.line ++ "\n").toUTF8 = [Text.encode record.toJson] := by
  obtain ⟨_, _, spelled, -⟩ := IndexRecord.toJson_spells record
  have written : record.line ++ "\n" = String.ofList ([record.toJson].flatMap (· ++ ['\n'])) := by
    rw [List.flatMap_singleton, String.ofList_append]
    rfl
  rw [written]
  exact Text.lines_toUTF8 (List.forall_mem_singleton.mpr spelled.single)

theorem Whole.kept (whole : Whole content) (limit : Nat) : Whole (Log.kept limit content) := by
  unfold Log.kept
  split
  · exact whole_empty
  · exact whole

theorem Whole.append_line (whole : Whole content) (record : IndexRecord) :
    Whole (content ++ (record.line ++ "\n").toUTF8) where
  ended := by
    refine .inr ⟨content.data.toList ++ Text.encode record.toJson, ?_⟩
    have written : record.line ++ "\n" = String.ofList (record.toJson ++ ['\n']) := (String.ofList_append ..).symm
    rw [ByteArray.data_append, Array.toList_append, written, Text.toList_toUTF8_ofList, Text.encode_append,
      ← List.append_assoc]
    rfl
  text := by
    intro line member
    rw [Text.lines_append whole.ended, lines_line] at member
    rcases List.mem_append.mp member with earlier | added
    · exact whole.text line earlier
    · rw [List.mem_singleton.mp added, Text.decode?_encode]
      rfl

theorem textLines_line (record : IndexRecord) : textLines (record.line ++ "\n").toUTF8 = [record.line] := by
  rw [textLines_eq, lines_line, decoded_cons, Text.decode?_encode]
  rfl

theorem readRecords_line (record : IndexRecord) :
    readRecords (record.line ++ "\n").toUTF8 = (IndexRecord.ofLine? record.line).toList := by
  rw [readRecords, textLines_line]
  cases read : IndexRecord.ofLine? record.line <;> simp [read]

end Index

namespace Store
variable {capacity : Nat} {store : Store capacity} {files : Files} {directory : String} {place : Location} {id : UInt32}
  {episode : Episode} {limit : Nat}

/-- Writing an episode down adds its record to what is kept of the index. -/
theorem persist_index (home : HomeAt files directory place)
    (fileFree : files.entry? (place ++ [EpisodeFile.name id]) ≠ some .directory)
    (indexFree : files.entry? (place ++ [indexName]) ≠ some .directory) :
    ∃ later, (persist directory id episode limit).run.run files = (.ok (), later) ∧
      HomeAt later directory place ∧ later.entry? (place ++ [indexName]) = some (.file
        (Log.kept limit (files.contentAt (place ++ [indexName])) ++
          ((IndexRecord.ofEpisode id episode).line ++ "\n").toUTF8)) := by
  obtain ⟨written, steps, writtenHome, same, -⟩ := run_persist home fileFree episode limit
  have index := same.entry _ (place_ne place id)
  have writtenFree : written.entry? (place ++ [indexName]) ≠ some .directory := by rwa [index]
  obtain ⟨later, run, sameIndex, content⟩ :=
    @Log.append_file _ (IndexRecord.ofEpisode id episode).line limit _ _ writtenHome.indexAt writtenFree
  refine ⟨later, steps.trans run, writtenHome.of_sameBut sameIndex writtenFree, ?_⟩
  rw [content, Files.contentAt, index]
  rfl

/-- A finished episode adds to the index what its own line is read as. -/
theorem exists_finalize_readIndex (home : HomeAt files directory place) (based : store.directory = some directory)
    (available : store.nextId = some id) (fileFree : files.entry? (place ++ [EpisodeFile.name id]) ≠ some .directory)
    (indexFree : files.entry? (place ++ [indexName]) ≠ some .directory)
    (whole : Index.Whole (files.contentAt (place ++ [indexName]))) :
    ∃ next later, (store.finalize episode).run files = ((some id, next), later) ∧ next.readIndex later =
      Index.readRecords (Log.kept store.indexLimit (files.contentAt (place ++ [indexName]))) ++
        (IndexRecord.ofLine? (IndexRecord.ofEpisode id episode).line).toList := by
  obtain ⟨later, run, laterHome, content⟩ :=
    @persist_index _ _ _ _ episode store.indexLimit home fileFree indexFree
  refine ⟨_, later, by rw [finalize_of_some available based, run], ?_⟩
  rw [readIndex, based]
  simp only [Option.map_some, laterHome.indexAt.read_file content]
  rw [← Index.readRecords_line, Index.readRecords, (whole.kept store.indexLimit).textLines_append,
    List.filterMap_append]
  rfl

end Store

namespace Session
open Store (HomeAt indexName)
variable {session : Session} {directory : String} {place : Location} {id : UInt32}

/-- A session whose index is whole. -/
structure Indexed (session : Session) (directory : String) (place : Location) : Prop where
  consistent : session.Consistent directory place
  free : session.files.entry? (place ++ [indexName]) ≠ some .directory
  whole : Index.Whole (session.files.contentAt (place ++ [indexName]))

/-- A finished episode is the last line of the index. -/
theorem Indexed.finalize (indexed : session.Indexed directory place) (available : session.store.nextId = some id)
    (episode : Episode) : (session.step directory (.finalize episode)).2.Indexed directory place ∧
      (session.step directory (.finalize episode)).2.files.contentAt (place ++ [indexName]) =
        Log.kept session.store.indexLimit (session.files.contentAt (place ++ [indexName])) ++
          ((IndexRecord.ofEpisode id episode).line ++ "\n").toUTF8 := by
  have consistent := (indexed.consistent.step (.finalize episode)).1
  have absent := indexed.consistent.home.fresh (indexed.consistent.nextId.symm.trans available)
  obtain ⟨later, run, -, entry⟩ := @Store.persist_index _ _ _ _ episode session.store.indexLimit
    indexed.consistent.home (by rw [absent]; simp) indexed.free
  have files : (session.step directory (.finalize episode)).2.files = later := by
    rw [Session.step, Store.finalize_of_some available indexed.consistent.based, run]
  have content : later.contentAt (place ++ [indexName]) =
      Log.kept session.store.indexLimit (session.files.contentAt (place ++ [indexName])) ++
        ((IndexRecord.ofEpisode id episode).line ++ "\n").toUTF8 := by
    rw [Files.contentAt, entry]
  refine ⟨⟨consistent, ?_, ?_⟩, ?_⟩
  · rw [files, entry]
    simp
  · rw [files, content]
    exact (indexed.whole.kept _).append_line _
  · rw [files, content]

theorem Indexed.step (indexed : session.Indexed directory place) (act : Act) :
    (session.step directory act).2.Indexed directory place := by
  cases act with
  | reopen capacity capacity_pos indexLimit =>
      have consistent := (indexed.consistent.step (.reopen capacity capacity_pos indexLimit)).1
      have files := (@Consistent.reopened _ _ _ _ capacity_pos indexLimit indexed.consistent).2
      change (opened directory capacity_pos indexLimit session.files).Consistent directory place at consistent
      refine ⟨consistent, ?_, ?_⟩
      · rw [show (session.step directory (.reopen capacity capacity_pos indexLimit)).2.files = session.files from files]
        exact indexed.free
      · rw [show (session.step directory (.reopen capacity capacity_pos indexLimit)).2.files = session.files from files]
        exact indexed.whole
  | finalize episode =>
      cases available : session.store.nextId with
      | none =>
          rw [Consistent.finalize_none available]
          exact indexed
      | some id => exact (indexed.finalize available episode).1

/-- An index that is whole stays so, whatever is finished. -/
theorem Indexed.run (indexed : session.Indexed directory place) (acts : List Act) :
    (session.run directory acts).2.Indexed directory place := by
  induction acts generalizing session with
  | nil => exact indexed
  | cons act acts inductionHypothesis => exact inductionHypothesis (indexed.step act)

/-- A store on an empty directory. -/
def onEmptyLogs : Session :=
  opened "logs" (show 0 < 4 by decide) 100 emptyLogs

theorem emptyLogs_homeAt : HomeAt emptyLogs "logs" ["logs"] :=
  ⟨directoryAt_logs rfl rfl, by decide⟩

theorem emptyLogs_index : emptyLogs.contentAt (["logs"] ++ [indexName]) = .empty := rfl

theorem onEmptyLogs_files : onEmptyLogs.files = emptyLogs :=
  (Store.openAt_nextId emptyLogs_homeAt.directoryAt.createDirectories_eq).2.2

theorem onEmptyLogs_indexed : onEmptyLogs.Indexed "logs" ["logs"] where
  consistent := opened_consistent emptyLogs_homeAt.directoryAt.createDirectories_eq emptyLogs_homeAt
  free := by
    rw [onEmptyLogs_files]
    decide
  whole := by
    rw [onEmptyLogs_files, emptyLogs_index]
    exact Index.whole_empty

theorem onEmptyLogs_nextId : onEmptyLogs.store.nextId = some 0 := by
  rw [onEmptyLogs_indexed.consistent.nextId, onEmptyLogs_files, Store.recoveredId?, emptyLogs_homeAt.indexIds_eq,
    emptyLogs_index, Store.fileIds, emptyLogs_list]
  rfl

theorem onEmptyLogs_free : onEmptyLogs.files.entry? (["logs"] ++ [EpisodeFile.name 0]) ≠ some .directory := by
  rw [onEmptyLogs_files]
  decide

theorem onEmptyLogs_shown : Index.readRecords (Log.kept onEmptyLogs.store.indexLimit
    (onEmptyLogs.files.contentAt (["logs"] ++ [indexName]))) = [] := by
  rw [onEmptyLogs_files, emptyLogs_index, Log.kept, ite_self]
  rfl

end Session

namespace Store
variable {capacity : Nat} {store : Store capacity} {files : Files} {directory : String} {place : Location} {id : UInt32}
  {episode : Episode}

/-- A finished episode is the last one in the index if the mean of its filter alphas is finite, and is missing there
if not. -/
theorem readIndex_finalize (home : HomeAt files directory place) (based : store.directory = some directory)
    (available : store.nextId = some id) (fileFree : files.entry? (place ++ [EpisodeFile.name id]) ≠ some .directory)
    (indexFree : files.entry? (place ++ [indexName]) ≠ some .directory)
    (whole : Index.Whole (files.contentAt (place ++ [indexName]))) (built : episode.Built) :
    let line := (IndexRecord.ofEpisode id episode).line
    let kept := Index.readRecords (Log.kept store.indexLimit (files.contentAt (place ++ [indexName])))
    ∃ next later, (store.finalize episode).run files = ((some id, next), later) ∧
      if episode.alphaMean.isFinite then
        ∃ record, IndexRecord.ofLine? line = some record ∧ next.readIndex later = kept ++ [record] ∧
          record.id = id ∧ record.length = episode.length ∧ record.label = episode.tag.label ∧ record.tag = episode.tag
      else IndexRecord.ofLine? line = none ∧ next.readIndex later = kept := by
  have short : episode.length < UInt64.size := Nat.lt_of_le_of_lt built.sound.fits (by decide)
  obtain ⟨next, later, run, added⟩ :=
    @exists_finalize_readIndex _ _ _ _ _ _ episode home based available fileFree indexFree whole
  refine ⟨next, later, run, ?_⟩
  split
  case isTrue finite =>
    obtain ⟨deltaMax, alphaMean, read⟩ :=
      @IndexRecord.exists_ofLine?_line (IndexRecord.ofEpisode id episode) short built.sound.deltaMax_isFinite finite
    refine ⟨_, read, ?_, rfl, rfl, rfl, rfl⟩
    rw [added, read]
    rfl
  case isFalse infinite =>
    have lost := @IndexRecord.ofLine?_line_eq_none (IndexRecord.ofEpisode id episode) short
      (Bool.eq_false_of_not_eq_true infinite)
    refine ⟨lost, ?_⟩
    rw [added, lost]
    exact List.append_nil _

/-- A tick of zeros is shown. -/
theorem readIndex_finalize_zero : ∃ next later record,
    (Session.onEmptyLogs.store.finalize (.ofTicks [.zero] .spike)).run Session.onEmptyLogs.files =
      ((some 0, next), later) ∧ Store.readIndex next later = [record] ∧
      record.id = 0 ∧ record.length = 1 ∧ record.label = "SPIKE" ∧ record.tag = .spike := by
  have indexed := Session.onEmptyLogs_indexed
  obtain ⟨next, later, run, shown⟩ := readIndex_finalize indexed.consistent.home indexed.consistent.based
    Session.onEmptyLogs_nextId Session.onEmptyLogs_free indexed.free indexed.whole (.ofTicks [.zero] .spike)
  have finite : (Episode.ofTicks [.zero] .spike).alphaMean.isFinite = true := by decide +kernel
  rw [if_pos finite, Session.onEmptyLogs_shown] at shown
  obtain ⟨record, -, read, id, length, label, tag⟩ := shown
  exact ⟨next, later, record, run, read, id, length, label, tag⟩

/-- Two ticks whose filter alphas are as large as they can be. -/
def loudEpisode : Episode :=
  .ofTicks (List.replicate 2 { Tick.zero with filterAlpha := .ofBits 0x7f7fffff }) .spike

/-- All of the ticks are finite, but their mean is not, and the index does not show them. -/
theorem readIndex_finalize_loudEpisode :
    loudEpisode.Built ∧ loudEpisode.isEmpty = false ∧ (∀ tick ∈ loudEpisode.ticks.toList, tick.isFinite) ∧
    IndexRecord.ofLine? (IndexRecord.ofEpisode 0 loudEpisode).line = none ∧
    ∃ next later, (Session.onEmptyLogs.store.finalize loudEpisode).run Session.onEmptyLogs.files =
      ((some 0, next), later) ∧ Store.readIndex next later = [] := by
  have built : loudEpisode.Built := .ofTicks _ .spike
  have lost := @IndexRecord.ofLine?_line_eq_none (IndexRecord.ofEpisode 0 loudEpisode) (by decide +kernel)
    (by decide +kernel)
  have indexed := Session.onEmptyLogs_indexed
  obtain ⟨next, later, run, shown⟩ := @exists_finalize_readIndex _ _ _ _ _ _ loudEpisode indexed.consistent.home
    indexed.consistent.based Session.onEmptyLogs_nextId Session.onEmptyLogs_free indexed.free indexed.whole
  rw [lost, Session.onEmptyLogs_shown] at shown
  exact ⟨built, by decide +kernel, built.sound.finite, lost, next, later, run, shown⟩

end Store

end EpisodicReplay
