import EpisodicReplay.Proofs.Store.Identifiers

/-!
What the scan for ids sees of the index. It sees every readable record that is written as an object. A record may also
be written as an array of its fields; the scan takes no array of more than one item, so it never sees such a record.
-/

namespace EpisodicReplay

namespace Index
open Json (Value)
variable {line : String} {record : IndexRecord}

/-- Whether a line spells an array. -/
def isRow (line : String) : Bool :=
  match Json.parse? line.toList with
  | some (.array _) => true
  | _ => false

/-- The readable records of lines that spell no array. -/
def readKeyed (content : ByteArray) : List IndexRecord :=
  ((textLines content).filter (!isRow ·)).filterMap IndexRecord.ofLine?

theorem exists_fields_of_ofJson? {json : Value} (read : IndexRecord.ofJson? json = some record) : ∃ fields,
    json.fields? ["idx", "len", "tag", "tag_mask", "delta_max", "alpha_mean"] = some fields ∧
      Json.required? fields "idx" Value.uint32? = some record.id ∧
      Json.required? fields "len" Value.count? = some record.length := by
  obtain ⟨fields, known, read⟩ := Option.bind_eq_some_iff.mp read
  obtain ⟨id, idRead, read⟩ := Option.bind_eq_some_iff.mp read
  obtain ⟨length, lengthRead, read⟩ := Option.bind_eq_some_iff.mp read
  obtain ⟨label, -, read⟩ := Option.bind_eq_some_iff.mp read
  obtain ⟨tag, -, read⟩ := Option.bind_eq_some_iff.mp read
  obtain ⟨deltaMax, -, read⟩ := Option.bind_eq_some_iff.mp read
  obtain ⟨alphaMean, -, read⟩ := Option.bind_eq_some_iff.mp read
  obtain rfl := Option.some.inj read
  exact ⟨fields, known, idRead, lengthRead⟩

/-- The scan sees a readable record just if its line is no array. -/
theorem idOfLine?_of_ofLine? (read : IndexRecord.ofLine? line = some record) :
    idOfLine? line = if isRow line then none else some record.id := by
  obtain ⟨json, parsed, read⟩ := Option.bind_eq_some_iff.mp read
  obtain ⟨fields, known, id, length⟩ := exists_fields_of_ofJson? read
  have scan : idOfLine? line = (json.fields? ["idx"]).bind (Json.required? · "idx" Value.uint32?) := by
    rw [idOfLine?, parsed]
    rfl
  rw [scan, isRow, parsed]
  cases json with
  | object pieces =>
      obtain ⟨others, fewer, same⟩ := @Json.fields?_object_of_subset _ ["idx"] _ _ (by simp) known
      rw [fewer, Option.bind_some, Json.required?, same "idx" (by simp)]
      exact id
  | array items =>
      simp only [Value.fields?, Option.ite_none_right_eq_some, Option.some.injEq] at known
      obtain ⟨-, rfl⟩ := known
      -- A record has its length behind its id, so that it takes two items, which are too many for the scan.
      rcases items with _ | ⟨first, _ | ⟨second, rest⟩⟩
      · cases length
      · simp [Json.required?, List.lookup] at length
      · simp [Value.fields?]
  | null | boolean | number | string => cases known

/-- The scan sees the records in their order, and maybe other lines between them. -/
theorem readKeyed_sublist (content : ByteArray) :
    ((readKeyed content).map IndexRecord.id).Sublist (readIds content) := by
  rw [readKeyed, readIds]
  induction textLines content with
  | nil => exact .slnil
  | cons line lines inductionHypothesis =>
      have skipped := inductionHypothesis.trans ((List.sublist_cons_self line lines).filterMap idOfLine?)
      cases row : isRow line with
      | true => rwa [List.filter_cons_of_neg (by simp [row])]
      | false =>
          rw [List.filter_cons_of_pos (by simp [row])]
          cases read : IndexRecord.ofLine? line with
          | none => rwa [List.filterMap_cons_none read]
          | some record =>
              have seen := idOfLine?_of_ofLine? read
              rw [row, if_neg (by simp)] at seen
              rw [List.filterMap_cons_some read, List.filterMap_cons_some seen, List.map_cons]
              exact inductionHypothesis.cons_cons record.id

end Index

namespace Session
open Store (indexName)
variable {files : Files} {directory : String} {place : Location} {session : Session} {content : ByteArray}
  {record : IndexRecord} {next : UInt32} {capacity : Nat}

/-- What the scan for ids makes of lines and of whole indexes, and how a session keeps clear of the ids that its own
index lists. -/
structure Scans (directory : String) (session : Session) : Prop where
  line : ∀ line record, IndexRecord.ofLine? line = some record →
    Index.idOfLine? line = if Index.isRow line then none else some record.id
  sublist : ∀ content, ((Index.readKeyed content).map IndexRecord.id).Sublist (Index.readIds content)
  shown : ∀ content, session.files.read (Path.join directory indexName) = .ok content →
    session.store.readIndex session.files = Index.readRecords content
  above : ∀ content, session.files.read (Path.join directory indexName) = .ok content →
    ∀ record ∈ Index.readKeyed content, ∀ next, session.store.nextId = some next → record.id < next
  fresh : ∀ content, session.files.read (Path.join directory indexName) = .ok content →
    ∀ record ∈ Index.readKeyed content, ∀ acts, ∀ id ∈ (session.run directory acts).1, record.id < id

theorem Consistent.lt_nextId (consistent : session.Consistent directory place)
    (index : session.files.read (Path.join directory indexName) = .ok content)
    (member : record ∈ Index.readKeyed content) (available : session.store.nextId = some next) : record.id < next := by
  have scanned : record.id ∈ Index.readIds content :=
    (Index.readKeyed_sublist content).mem (List.mem_map_of_mem member)
  have listed : record.id ∈ Store.indexIds session.files directory := by
    rwa [Store.indexIds, index]
  exact Store.lt_recoveredId? (consistent.nextId.symm.trans available) _ (List.mem_append_left _ listed)

theorem Consistent.scans (consistent : session.Consistent directory place) : Scans directory session where
  line line record := Index.idOfLine?_of_ofLine?
  sublist := Index.readKeyed_sublist
  shown := by
    intro content index
    rw [Store.readIndex, consistent.based, Option.map_some, index]
  above := by
    intro content index record member next available
    exact consistent.lt_nextId index member available
  fresh := by
    intro content index record member acts id given
    obtain ⟨next, available, bound⟩ := (consistent.run acts).2.lower id given
    exact Std.lt_of_lt_of_le (consistent.lt_nextId index member available) bound

/-- Whatever a directory holds at first and whatever is done with it, its store goes on behind the records that are
written as objects. -/
theorem scans_run (usable : Usable files directory) (capacity_pos : 0 < capacity) (indexLimit : Nat)
    (acts : List Act) : Scans directory ((opened directory capacity_pos indexLimit files).run directory acts).2 := by
  obtain ⟨place, opens⟩ := @Usable.opened_consistent _ _ _ capacity_pos indexLimit usable
  exact (opens.run acts).1.scans

/-- An index with one record, which is written as the array of its fields. -/
def rowIndex : ByteArray :=
  "[0,1,\"SPIKE\",1,0.5,0.25]\n".toUTF8

def rowLogs : Files :=
  ⟨[(["logs"], .directory), (["logs", "erb_index.jsonl"], .file rowIndex)], []⟩

/-- A record that is written as an object joins the one that is written as an array. -/
theorem scans_rowLogs : Usable rowLogs "logs" ∧ Scans "logs" ((opened "logs" (show 0 < 4 by decide) 100 rowLogs).run
    "logs" [.finalize (.ofTicks [.zero] .spike), .reopen 1 (by decide) 0]).2 := by
  have usable : Usable rowLogs "logs" :=
    ⟨by decide, by rw [(directoryAt_logs rfl rfl).createDirectories_eq], by decide⟩
  exact ⟨usable, scans_run usable (by decide) 100 _⟩

/-- The record in the array is read, but the scan does not see it, and its id is given out once more. -/
theorem not_scans_rowIndex : Index.readRecords rowIndex = [⟨0, 1, "SPIKE", .spike, 0.5, 0.25⟩] ∧
    Index.readIds rowIndex = [] ∧ ¬((Index.readRecords rowIndex).map IndexRecord.id).Sublist (Index.readIds rowIndex) ∧
    let session := opened "logs" (show 0 < 4 by decide) 100 rowLogs
    (session.store.readIndex session.files).map IndexRecord.id = [0] ∧ session.store.nextId = some 0 ∧
      (session.run "logs" [.finalize (.ofTicks [.zero] .spike)]).1 = [0] := by
  decide +kernel

end Session

end EpisodicReplay
