import EpisodicReplay.Proofs.Files.Frame
import EpisodicReplay.Proofs.Replay

/-!
A replay whose log cannot always be written. Its answer stays the same, and the log has the lines of the first traces,
up to the one that was not written, or not as a whole.
-/

namespace EpisodicReplay.Replay
variable {φ : Type} [SmoothingFilter φ] {files : Files} {place : Location} {log : TraceLog} {traces : List Trace}

theorem Fault.exists_append (fault : Fault) (trace : Trace) : ∃ missing, fault.part trace ++ missing = trace.bytes := by
  unfold Fault.part
  split
  case h_1 => exact ⟨trace.bytes, ByteArray.empty_append⟩
  case h_2 count _ =>
    refine ⟨trace.bytes.extract (min count trace.bytes.size) trace.bytes.size, ?_⟩
    rw [ByteArray.extract_append_extract, Nat.min_eq_left (Nat.zero_le _), Nat.max_eq_right (Nat.min_le_right _ _),
      ByteArray.extract_zero_size]

theorem appendUnless_touchesOnly (log : TraceLog) (faults : Faults) (trace : Trace) (files : Files) :
    files.TouchesOnly log.path ((log.appendUnless faults trace).run.run files).2 := by
  cases decided : faults trace files with
  | none =>
      rw [run_appendUnless log decided]
      exact Log.appendBytes_touchesOnly ..
  | some fault =>
      obtain ⟨failure, run⟩ := run_appendUnless_fault log decided
      rw [run]
      dsimp only
      split
      · exact Log.appendBytes_touchesOnly ..
      · exact .nothing

/-- What a log gets of traces: whole lines up to one that cannot be written, or all of them. -/
inductive Gets (faults : Faults) : List Trace → ByteArray → Prop
  | nothing : Gets faults [] .empty
  | torn {trace : Trace} {rest : List Trace} {state : Files} {fault : Fault} (fails : faults trace state = some fault) :
      Gets faults (trace :: rest) (fault.part trace)
  | line {trace : Trace} {rest : List Trace} {state : Files} {part : ByteArray} (works : faults trace state = none)
      (later : Gets faults rest part) : Gets faults (trace :: rest) (trace.bytes ++ part)

namespace Gets
variable {faults : Faults} {part : ByteArray}

theorem written_cons (trace : Trace) (rest : List Trace) :
    Log.written ((trace :: rest).map Trace.line) = trace.bytes ++ Log.written (rest.map Trace.line) := by
  rw [List.map_cons, ← List.singleton_append, Log.written_append, Log.written_singleton, Trace.bytes]

/-- A log never gets anything else than the lines. -/
theorem exists_append (gets : Gets faults traces part) :
    ∃ missing, part ++ missing = Log.written (traces.map Trace.line) := by
  induction gets with
  | nothing => exact ⟨.empty, ByteArray.append_empty⟩
  | @torn trace rest _ fault =>
      obtain ⟨missing, whole⟩ := fault.exists_append trace
      exact ⟨missing ++ Log.written (rest.map Trace.line), by rw [written_cons, ← ByteArray.append_assoc, whole]⟩
  | @line trace rest _ part _ _ inductionHypothesis =>
      obtain ⟨missing, whole⟩ := inductionHypothesis
      exact ⟨missing, by rw [written_cons, ByteArray.append_assoc, whole]⟩

theorem size_le (gets : Gets faults traces part) : part.size ≤ (Log.written (traces.map Trace.line)).size := by
  obtain ⟨missing, whole⟩ := gets.exists_append
  rw [← whole, ByteArray.size_append]
  exact Nat.le_add_right _ _

/-- Without a fault the log gets all lines. -/
theorem eq_written (gets : Gets faults traces part) (works : ∀ trace ∈ traces, ∀ state, faults trace state = none) :
    part = Log.written (traces.map Trace.line) := by
  induction gets with
  | nothing => rfl
  | torn fails =>
      rw [works _ List.mem_cons_self] at fails
      cases fails
  | line _ _ inductionHypothesis =>
      rw [written_cons, inductionHypothesis fun trace member => works trace (List.mem_cons_of_mem _ member)]

end Gets

theorem forM_touchesOnly (log : TraceLog) (faults : Faults) (traces : List Trace) (files : Files) :
    files.TouchesOnly log.path ((traces.forM (log.appendUnless faults)).run.run files).2 := by
  induction traces generalizing files with
  | nil => exact .nothing
  | cons trace rest inductionHypothesis =>
      have first := appendUnless_touchesOnly log faults trace files
      rw [List.forM, run_bind]
      rcases ran : (log.appendUnless faults trace).run.run files with ⟨failure | _, next⟩
      case error =>
        rw [ran] at first
        exact first
      case ok =>
        rw [ran] at first
        exact first.trans (inductionHypothesis next)

/-- The log gets the lines until the first write that fails, behind what it was. -/
theorem exists_gets (faults : Faults) (fileAt : files.FileAt log.path place)
    (free : files.entry? place ≠ some .directory)
    (fits : Log.Fits log.limit (files.contentAt place) (traces.map Trace.line)) :
    ∃ part, Gets faults traces part ∧
      ((traces.forM (log.appendUnless faults)).run.run files).2.contentAt place = files.contentAt place ++ part := by
  induction traces generalizing files with
  | nil => exact ⟨.empty, .nothing, ByteArray.append_empty.symm⟩
  | cons trace rest inductionHypothesis =>
      -- The log is not emptied before the line, so that everything comes behind what it was.
      have kept : Log.kept log.limit (files.contentAt place) = files.contentAt place := fits.kept (by simp)
      rw [List.forM, run_bind]
      cases decided : faults trace files with
      | some fault =>
          refine ⟨fault.part trace, .torn decided, ?_⟩
          obtain ⟨failure, run⟩ := run_appendUnless_fault log decided
          rw [run]
          dsimp only
          split
          case isTrue =>
            obtain ⟨later, added, -, found⟩ :=
              @Log.appendBytes_file log.path log.limit files place (fault.part trace) fileAt free
            rw [added, Files.contentAt, found, kept]
          case isFalse closed =>
            rw [Fault.part, Option.not_isSome_iff_eq_none.mp closed, ByteArray.append_empty]
      | none =>
          rw [run_appendUnless log decided]
          obtain ⟨next, added, same, found⟩ := @Log.append_file log.path trace.line log.limit files place fileAt free
          have content : next.contentAt place = files.contentAt place ++ trace.bytes := by
            rw [Files.contentAt, found, kept, Trace.bytes]
          rw [added]
          dsimp only
          have room : Log.Fits log.limit (next.contentAt place) (rest.map Trace.line) := by
            rw [content]
            have whole : trace.bytes.size = (Log.written [trace.line]).size := by
              rw [Log.written_singleton, Trace.bytes]
            exact @Log.Fits.after log.limit _ trace.bytes [trace.line] _ fits (Nat.le_of_eq whole)
          obtain ⟨part, gets, rest⟩ := inductionHypothesis (fileAt.of_sameBut same free) (by rw [found]; simp) room
          exact ⟨trace.bytes ++ part, .line decided gets, by rw [rest, content, ByteArray.append_assoc]⟩

/-- The answer of a replay owes nothing to the log, and the log gets the lines until the first write that fails. -/
structure EpisodeLogged (loaded : Episode) (source : UInt32) (mode : String) (filter : φ) : Prop where
  answer : ∀ faults log files, ((episodeUnless faults loaded source mode filter log).run files).1 =
    ((episode loaded source mode filter none).run .empty).1
  plain : ∀ log, episodeUnless (fun _ _ => none) loaded source mode filter log = episode loaded source mode filter log
  logged : ∀ (faults : Faults) (log : TraceLog) files place, files.locateFile log.path = .ok place →
    let traces := ((episode loaded source mode filter none).run .empty).1.1
    Log.Fits log.limit (files.contentAt place) (traces.map Trace.line) →
    ∃ part missing, Gets faults traces part ∧ part ++ missing = Log.written (traces.map Trace.line) ∧
      ((episodeUnless faults loaded source mode filter (some log)).run files).2.contentAt place =
        files.contentAt place ++ part

theorem episode_logged (loaded : Episode) (source : UInt32) (mode : String) (filter : φ) :
    EpisodeLogged loaded source mode filter where
  answer faults log files := fst_run_episodeUnless faults loaded source mode filter log files
  plain log := rfl
  logged := by
    intro faults log files place located traces fits
    obtain ⟨fileAt, free⟩ := Files.fileAt_of_locateFile located
    obtain ⟨part, gets, content⟩ := exists_gets faults fileAt free fits
    obtain ⟨missing, whole⟩ := gets.exists_append
    exact ⟨part, missing, gets, whole, content⟩

end EpisodicReplay.Replay
