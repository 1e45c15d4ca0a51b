import EpisodicReplay.Log
import EpisodicReplay.Proofs.Files

/-! Work on files step by step, and what a log holds after a line was added. -/

namespace EpisodicReplay

/-- The work after a failure is left out. -/
theorem run_bind {σ α β : Type} (first : InPlace σ α) (next : α → InPlace σ β)
    (state : σ) : (first >>= next).run.run state =
      match first.run.run state with
      | (.ok value, later) => (next value).run.run later
      | (.error failure, later) => (.error failure, later) := by
  rw [ExceptT.run_bind, StateT.run_bind]
  generalize first.run.run state = ended
  obtain ⟨outcome, later⟩ := ended
  cases outcome <;> rfl

/-- The rest of the state stays. -/
theorem run_on {σ τ α : Type} (part : σ → τ) (replace : σ → τ → σ) (work : InPlace τ α) (state : σ) :
    (InPlace.on part replace work).run.run state =
      ((work.run.run (part state)).1, replace state (work.run.run (part state)).2) := rfl

theorem run_get {σ : Type} (state : σ) : (get : ExceptT Failure (StateM σ) σ).run.run state = (.ok state, state) :=
  rfl

/-- A loop that never breaks off runs its body on each item. -/
theorem forIn_yield {α : Type} {m : Type → Type} [Monad m] [LawfulMonad m] (items : List α) (body : α → m PUnit) :
    (forIn items PUnit.unit fun item _ => do
      body item
      return .yield PUnit.unit) = items.forM body := by
  induction items with
  | nil => rfl
  | cons item items inductionHypothesis =>
      rw [List.forIn_cons, bind_assoc, List.forM]
      exact bind_congr fun _ => (pure_bind _ _).trans inductionHypothesis

namespace FileAction
variable {path : String} {content : ByteArray} {files later : Files} {place : Location}

theorem run_modify (path : String) (change : Files → Except FileFault Files) (files : Files) :
    (modify path change).run.run files =
      match change files with
      | .ok later => (.ok (), later)
      | .error fault => (.error (.file path fault), files) := by
  change StateT.run (ExceptT.run (match change files with
    | .ok later => set later
    | .error fault => throw (Failure.file path fault) : FileAction Unit)) files = _
  cases change files <;> rfl

theorem run_write (fileAt : files.FileAt path place) (noDirectory : files.entry? place ≠ some .directory) :
    (write path content).run.run files = (.ok (), files.put place (.file content)) := by
  rw [write, run_modify, fileAt.write_eq noDirectory]

theorem run_createDirectories (path : String) (files : Files) : (createDirectories path).run.run files =
    ((files.createDirectories path).1.mapError (.file path), (files.createDirectories path).2) := by
  rw [createDirectories, run_bind, run_get]
  dsimp only
  rcases files.createDirectories path with ⟨_ | _, later⟩ <;> rfl

end FileAction

namespace Log
variable {path line : String} {limit : Nat} {files : Files} {place : Location}

/-- What a log keeps when a line is added: nothing if it has grown beyond its limit. -/
def kept (limit : Nat) (content : ByteArray) : ByteArray :=
  if limit < content.size then .empty else content

theorem run_trim (path : String) (limit : Nat) (files : Files) : (trim path limit).run.run files =
    match files.size path with
    | .ok size => if limit < size then
        ((FileAction.write path .empty >>= fun _ => return true : FileAction Bool)).run.run files
      else (.ok false, files)
    | .error .notFound => (.ok false, files)
    | .error fault => (.error (.file path fault), files) := by
  change StateT.run (ExceptT.run (match files.size path with
    | .ok size => if limit < size then FileAction.write path .empty >>= fun _ => return true else return false
    | .error .notFound => return false
    | .error fault => throw (Failure.file path fault) : FileAction Bool)) files = _
  cases files.size path with
  | ok size =>
      dsimp only
      split <;> rfl
  | error fault => cases fault <;> rfl

/-- A log that is not beyond its limit is not trimmed. -/
theorem run_trim_of_le (fileAt : files.FileAt path place) (noDirectory : files.entry? place ≠ some .directory)
    (small : (files.contentAt place).size ≤ limit) : (trim path limit).run.run files = (.ok false, files) := by
  rw [run_trim, fileAt.size_eq]
  cases found : files.entry? place with
  | none => rfl
  | some entry =>
      cases entry with
      | directory => exact absurd found noDirectory
      | file content =>
          rw [Files.contentAt, found] at small
          dsimp only
          rw [if_neg (Nat.not_lt.mpr small)]

/-- A log beyond its limit is there, and is emptied. -/
theorem run_trim_of_lt (fileAt : files.FileAt path place) (noDirectory : files.entry? place ≠ some .directory)
    (grown : limit < (files.contentAt place).size) :
    (trim path limit).run.run files = (.ok true, files.put place (.file .empty)) := by
  rw [run_trim, fileAt.size_eq]
  unfold Files.contentAt at grown
  cases found : files.entry? place with
  | none =>
      rw [found] at grown
      exact absurd grown (Nat.not_lt_zero limit)
  | some entry =>
      cases entry with
      | directory => exact absurd found noDirectory
      | file content =>
          rw [found] at grown
          dsimp only
          rw [if_pos grown, run_bind, FileAction.run_write fileAt noDirectory]
          rfl

theorem trim_file (fileAt : files.FileAt path place) (noDirectory : files.entry? place ≠ some .directory) :
    ∃ later, (trim path limit).run.run files = (.ok (decide (limit < (files.contentAt place).size)), later) ∧
      files.SameBut later place ∧ later.entry? place ≠ some .directory ∧
      later.contentAt place = kept limit (files.contentAt place) := by
  unfold kept
  split
  case isTrue grown =>
    have emptied : Files.entry? (files.put place (.file .empty)) place = some (.file .empty) := by
      rw [Files.entry?_put fileAt.inside, if_pos rfl]
    refine ⟨_, ?_, Files.put_sameBut files fileAt.inside (.file .empty), by rw [emptied]; simp, ?_⟩
    · rw [run_trim_of_lt fileAt noDirectory grown, decide_eq_true grown]
    · rw [Files.contentAt, emptied]
  case isFalse small =>
    refine ⟨files, ?_, .refl files place, noDirectory, rfl⟩
    rw [run_trim_of_le fileAt noDirectory (Nat.not_lt.mp small), decide_eq_false small]

/-- Adds bytes to a log, which need not be a whole line. -/
def appendBytes (path : String) (bytes : ByteArray) (limit : Nat) : FileAction Unit := do
  let _ ← trim path limit
  FileAction.modify path (·.append path bytes)

theorem append_eq (path line : String) (limit : Nat) :
    append path line limit = appendBytes path (line ++ "\n").toUTF8 limit := rfl

theorem appendBytes_file (bytes : ByteArray) (fileAt : files.FileAt path place)
    (noDirectory : files.entry? place ≠ some .directory) :
    ∃ later, (appendBytes path bytes limit).run.run files = (.ok (), later) ∧ files.SameBut later place ∧
      later.entry? place = some (.file (kept limit (files.contentAt place) ++ bytes)) := by
  obtain ⟨trimmed, run, same, stillFile, content⟩ := @trim_file path limit files place fileAt noDirectory
  have trimmedAt := fileAt.of_sameBut same noDirectory
  refine ⟨trimmed.put place (.file (trimmed.contentAt place ++ bytes)), ?_,
    same.trans (Files.put_sameBut trimmed fileAt.inside _), ?_⟩
  · rw [appendBytes, run_bind, run]
    dsimp only
    rw [FileAction.run_modify, trimmedAt.append_eq stillFile]
  · rw [Files.entry?_put fileAt.inside, if_pos rfl, content]

/-- A log is what was kept of it with the new line behind. -/
theorem append_file (fileAt : files.FileAt path place) (noDirectory : files.entry? place ≠ some .directory) :
    ∃ later, (append path line limit).run.run files = (.ok (), later) ∧ files.SameBut later place ∧
      later.entry? place = some (.file (kept limit (files.contentAt place) ++ (line ++ "\n").toUTF8)) :=
  appendBytes_file _ fileAt noDirectory

section refused
variable {fault : FileFault} (refused : files.locateFile path = .error fault)
include refused

theorem trim_refused (limit : Nat) : (trim path limit).run.run files = (.ok false, files) ∨
    ∃ failure, (trim path limit).run.run files = (.error failure, files) := by
  have write : files.write path .empty = .error fault := by
    rw [Files.write, refused]
    rfl
  rw [run_trim]
  split
  · split
    · rw [run_bind, FileAction.write, FileAction.run_modify, write]
      exact .inr ⟨_, rfl⟩
    · exact .inl rfl
  · exact .inl rfl
  · exact .inr ⟨_, rfl⟩

/-- Where no file may be written, nothing changes and the bytes are lost. -/
theorem appendBytes_refused (bytes : ByteArray) (limit : Nat) :
    ∃ failure, (appendBytes path bytes limit).run.run files = (.error failure, files) := by
  rw [appendBytes, run_bind]
  rcases trim_refused refused limit with trimmed | ⟨failure, failed⟩
  · have add : files.append path bytes = .error fault := by
      rw [Files.append, refused]
      rfl
    rw [trimmed]
    dsimp only
    rw [FileAction.run_modify, add]
    exact ⟨_, rfl⟩
  · rw [failed]
    exact ⟨failure, rfl⟩

end refused

/-- The content of what stands in the place of a log. What is missing has none. -/
def contentOf : Option FileEntry → ByteArray
  | some (.file content) => content
  | _ => .empty

/-- What stands in the place of a log after lines were added to it. -/
def extended (limit : Nat) (entry : Option FileEntry) (lines : List String) : Option FileEntry :=
  lines.foldl (fun entry line => some (.file (kept limit (contentOf entry) ++ (line ++ "\n").toUTF8))) entry

theorem extended_concat (limit : Nat) (entry : Option FileEntry) (lines : List String) (line : String) :
    extended limit entry (lines ++ [line]) =
      some (.file (kept limit (contentOf (extended limit entry lines)) ++ (line ++ "\n").toUTF8)) :=
  List.foldl_append

theorem extended_ne_directory {entry : Option FileEntry} (noDirectory : entry ≠ some .directory)
    (lines : List String) : extended limit entry lines ≠ some .directory := by
  rcases List.eq_nil_or_concat lines with rfl | ⟨front, line, rfl⟩
  · exact noDirectory
  · rw [List.concat_eq_append, extended_concat]
    simp

/-- The bytes of whole lines. -/
def written (lines : List String) : ByteArray :=
  (String.join (lines.map (· ++ "\n"))).toUTF8

@[simp]
theorem written_nil : written [] = .empty := rfl

theorem written_append (front back : List String) : written (front ++ back) = written front ++ written back := by
  simp only [written, List.map_append, String.join_append, String.toUTF8_eq_toByteArray, String.toByteArray_append]

theorem written_singleton (line : String) : written [line] = (line ++ "\n").toUTF8 := by
  simp [written, String.join]

/-- None of the lines finds the log beyond its limit when it is added. -/
def Fits (limit : Nat) (before : ByteArray) (lines : List String) : Prop :=
  ∀ count < lines.length, (before ++ written (lines.take count)).size ≤ limit

instance (limit : Nat) (before : ByteArray) (lines : List String) : Decidable (Fits limit before lines) :=
  inferInstanceAs (Decidable (∀ count < lines.length, (before ++ written (lines.take count)).size ≤ limit))

namespace Fits
variable {before part : ByteArray} {front back lines : List String}

theorem kept (fits : Fits limit before lines) (some : lines ≠ []) : kept limit before = before := by
  have room := fits 0 (List.length_pos_iff.mpr some)
  rw [List.take_zero, written_nil, ByteArray.append_empty] at room
  exact if_neg (Nat.not_lt.mpr room)

theorem start (fits : Fits limit before (front ++ back)) : Fits limit before front := by
  intro count less
  have room := fits count (by rw [List.length_append]; omega)
  rwa [List.take_append_of_le_length (Nat.le_of_lt less)] at room

/-- The later lines fit behind the first ones, and behind less. -/
theorem after (fits : Fits limit before (front ++ back)) (small : part.size ≤ (written front).size) :
    Fits limit (before ++ part) back := by
  intro count less
  have room := fits (front.length + count) (by rw [List.length_append]; omega)
  rw [List.take_length_add_append, written_append] at room
  simp only [ByteArray.size_append] at room ⊢
  omega

end Fits

/-- A log that all lines fit into keeps what it held. -/
theorem contentOf_extended {entry : Option FileEntry} {lines : List String}
    (fits : Fits limit (contentOf entry) lines) :
    contentOf (extended limit entry lines) = contentOf entry ++ written lines := by
  induction lines generalizing entry with
  | nil =>
      rw [written_nil, ByteArray.append_empty]
      rfl
  | cons line rest inductionHypothesis =>
      have added : extended limit entry (line :: rest) =
          extended limit (some (.file (contentOf entry ++ written [line]))) rest := by
        rw [written_singleton, ← fits.kept (List.cons_ne_nil line rest)]
        rfl
      have later : Fits limit (contentOf (some (.file (contentOf entry ++ written [line])))) rest :=
        @Fits.after limit (contentOf entry) (written [line]) [line] rest fits (Nat.le_refl _)
      rw [added, inductionHypothesis later]
      change contentOf entry ++ written [line] ++ written rest = _
      rw [ByteArray.append_assoc, ← written_append]
      rfl

/-- What stands in the place of a log after items were added to it, each with a limit of its own. -/
def extendedBy {α : Type} (lineOf : α → String) (limitOf : α → Nat) (entry : Option FileEntry) (items : List α) :
    Option FileEntry :=
  items.foldl (fun entry item => some (.file (kept (limitOf item) (contentOf entry) ++ (lineOf item ++ "\n").toUTF8)))
    entry

/-- Lines are added one after another. -/
theorem run_forM_append_limits {α : Type} {items : List α} (lineOf : α → String) (limitOf : α → Nat)
    (fileAt : files.FileAt path place) (noDirectory : files.entry? place ≠ some .directory) :
    ∃ later, (items.forM fun item => append path (lineOf item) (limitOf item)).run.run files = (.ok (), later) ∧
      files.SameBut later place ∧ later.entry? place ≠ some .directory ∧
      later.entry? place = extendedBy lineOf limitOf ( files.entry? place) items := by
  induction items generalizing files with
  | nil => exact ⟨files, rfl, .refl files place, noDirectory, rfl⟩
  | cons item items inductionHypothesis =>
      obtain ⟨next, run, same, found⟩ := @append_file path (lineOf item) (limitOf item) files place fileAt noDirectory
      have nextNoDirectory : next.entry? place ≠ some .directory := by
        rw [found]
        simp
      obtain ⟨last, rest, sameLast, stillFile, added⟩ :=
        inductionHypothesis (fileAt.of_sameBut same noDirectory) nextNoDirectory
      refine ⟨last, ?_, same.trans sameLast, stillFile, ?_⟩
      · rw [List.forM, run_bind, run]
        exact rest
      · rw [added, found]
        rfl

/-- With one limit for all of them it is the log of their lines. -/
theorem run_forM_append {α : Type} {items : List α} (lineOf : α → String) (fileAt : files.FileAt path place)
    (noDirectory : files.entry? place ≠ some .directory) :
    ∃ later, (items.forM fun item => append path (lineOf item) limit).run.run files = (.ok (), later) ∧
      files.SameBut later place ∧ later.entry? place ≠ some .directory ∧
      later.entry? place = extended limit ( files.entry? place) (items.map lineOf) := by
  obtain ⟨later, run, same, stillFile, added⟩ := run_forM_append_limits lineOf (fun _ => limit) fileAt noDirectory
  refine ⟨later, run, same, stillFile, ?_⟩
  rw [added, extended, List.foldl_map]
  rfl

end Log

end EpisodicReplay
