import EpisodicReplay.Buffer
import EpisodicReplay.Proofs.Capture.Schedule
import EpisodicReplay.Proofs.Store.Enrollment

/-!
A buffer loses no episode, doubles none and keeps their order, whatever becomes of the files: its ids and its cache
depend on ticks and tags alone.
-/

namespace EpisodicReplay

/-- The episodes that the steps of a schedule return, in their order. -/
def Recorder.episodes {capacity : Nat} (recorder : Recorder capacity) : List Recorder.Event → List Episode
  | [] => []
  | event :: rest => (recorder.advance event).1.toList ++ (recorder.advance event).2.episodes rest

theorem Recorder.episodes_concat {capacity : Nat} (recorder : Recorder capacity) (events : List Recorder.Event)
    (event : Recorder.Event) : recorder.episodes (events ++ [event]) =
      recorder.episodes events ++ ((recorder.after events).advance event).1.toList := by
  induction events generalizing recorder with
  | nil => simp [episodes, Recorder.after]
  | cons first rest inductionHypothesis =>
      rw [List.cons_append, episodes, inductionHypothesis, episodes, List.append_assoc]
      rfl

namespace Buffer
variable {historyCapacity storeCapacity : Nat}

/-- A call of a buffer. A step comes with the files that it finds, and with what writing is going to do to them. -/
inductive Call where
  | push (tick : Tick)
  | step (tag : Tag) (files : Files) (writer : Writer)

/-- What the recorder inside a buffer gets to see of a call. -/
def Call.event : Call → Recorder.Event
  | .push tick => .push tick
  | .step tag _ _ => .step tag

/-- Steps with any writer. -/
def stepBy (writer : Writer) (buffer : Buffer historyCapacity storeCapacity) (tag : Tag) :
    StateM Files (Option UInt32 × Buffer historyCapacity storeCapacity) := do
  match buffer.capture.step buffer.history tag with
  | (none, capture) => return (none, { buffer with capture })
  | (some episode, capture) =>
    let (id?, store) ← buffer.store.finalizeBy writer episode
    return (id?, { buffer with capture, store })

theorem stepBy_persist (buffer : Buffer historyCapacity storeCapacity) (tag : Tag) :
    buffer.stepBy Store.persist tag = buffer.step tag := rfl

/-- Carries out a call. Returns the id of an episode that it completed. -/
def answer (buffer : Buffer historyCapacity storeCapacity) : Call → Option UInt32 × Buffer historyCapacity storeCapacity
  | .push tick => (none, buffer.push tick)
  | .step tag files writer => ((buffer.stepBy writer tag).run files).1

/-- The buffer after calls. -/
def after (buffer : Buffer historyCapacity storeCapacity) (calls : List Call) : Buffer historyCapacity storeCapacity :=
  calls.foldl (fun buffer call => (buffer.answer call).2) buffer

/-- All ids that calls return, in their order. -/
def ids (buffer : Buffer historyCapacity storeCapacity) : List Call → List UInt32
  | [] => []
  | call :: rest => (buffer.answer call).1.toList ++ (buffer.answer call).2.ids rest

/-- History and capture of a buffer. -/
def recorder (buffer : Buffer historyCapacity storeCapacity) : Recorder historyCapacity :=
  ⟨buffer.history, buffer.capture⟩

/-- A call lets the recorder go on, and the store takes in the episode that comes out. -/
theorem answer_eq (buffer : Buffer historyCapacity storeCapacity) (call : Call) :
    (buffer.answer call).1 = (buffer.store.take (buffer.recorder.advance call.event).1).1 ∧
      (buffer.answer call).2.recorder = (buffer.recorder.advance call.event).2 ∧
      (buffer.answer call).2.store = (buffer.store.take (buffer.recorder.advance call.event).1).2 := by
  cases call with
  | push tick => exact ⟨rfl, rfl, rfl⟩
  | step tag files writer =>
      simp only [answer, stepBy, Call.event, Recorder.advance_step, recorder]
      obtain ⟨captured, capture⟩ := buffer.capture.step buffer.history tag
      cases captured with
      | none => exact ⟨rfl, rfl, rfl⟩
      | some episode =>
          have written := Store.finalizeBy_fst writer buffer.store episode files
          refine ⟨congrArg Prod.fst written, rfl, congrArg Prod.snd written⟩

theorem after_concat (buffer : Buffer historyCapacity storeCapacity) (calls : List Call) (call : Call) :
    buffer.after (calls ++ [call]) = ((buffer.after calls).answer call).2 := by
  rw [after, List.foldl_append]
  rfl

theorem ids_concat (buffer : Buffer historyCapacity storeCapacity) (calls : List Call) (call : Call) :
    buffer.ids (calls ++ [call]) = buffer.ids calls ++ ((buffer.after calls).answer call).1.toList := by
  induction calls generalizing buffer with
  | nil => simp [ids, after]
  | cons first rest inductionHypothesis =>
      rw [List.cons_append, ids, inductionHypothesis, ids, List.append_assoc]
      rfl

/-- The recorder of a buffer does not notice the store. -/
theorem recorder_after (start : Buffer historyCapacity storeCapacity) (calls : List Call) :
    (start.after calls).recorder = start.recorder.after (calls.map Call.event) := by
  induction calls using List.reverseRecOn with
  | nil => rfl
  | append_singleton earlier call inductionHypothesis =>
      rw [after_concat, (answer_eq _ _).2.1, inductionHypothesis, List.map_append, List.map_singleton,
        Recorder.after_concat]

/-- The store of a buffer takes in every episode of the recorder. -/
theorem enrolled_after (start : Buffer historyCapacity storeCapacity) (calls : List Call) :
    start.store.Enrolled (start.after calls).store (start.ids calls)
      (start.recorder.episodes (calls.map Call.event)) := by
  induction calls using List.reverseRecOn with
  | nil => exact .refl start.store
  | append_singleton earlier call inductionHypothesis =>
      obtain ⟨returned, -, store⟩ := answer_eq (start.after earlier) call
      rw [after_concat, ids_concat, store, returned, List.map_append, List.map_singleton, Recorder.episodes_concat,
        recorder_after]
      exact inductionHypothesis.take _

/-- A step returns an id exactly if it captured an episode and there is an id left; then it is the next one. -/
theorem answer_step (buffer : Buffer historyCapacity storeCapacity) (tag : Tag) (files : Files) (writer : Writer) :
    (buffer.answer (.step tag files writer)).1 =
      if (buffer.capture.step buffer.history tag).1.isSome then buffer.store.nextId else none := by
  rw [(answer_eq _ _).1]
  change (buffer.store.take (buffer.capture.step buffer.history tag).1).1 = _
  cases (buffer.capture.step buffer.history tag).1 with
  | none => rfl
  | some episode => exact buffer.store.enroll_fst episode

/-- What a buffer has made of calls, with whatever files and writers they came. -/
structure Reliable (start : Buffer historyCapacity storeCapacity) (calls : List Call) : Prop where
  /-- The program's own step is the one with the program's own writer. -/
  program : ∀ tag files, (((start.after calls).step tag).run files).1 =
    (start.after calls).answer (.step tag files Store.persist)
  answered : ∀ tag files writer, ((start.after calls).answer (.step tag files writer)).1.isSome ↔
    ((start.after calls).capture.step (start.after calls).history tag).1.isSome ∧
      (start.after calls).store.nextId.isSome
  recorded : (start.after calls).recorder = start.recorder.after (calls.map Call.event)
  enrolled : start.store.Enrolled (start.after calls).store (start.ids calls)
    (start.recorder.episodes (calls.map Call.event))
  below : (∀ record ∈ start.store.cache.toList, record.id.toNat < start.store.mark) →
    ∀ record ∈ (start.after calls).store.cache.toList, record.id.toNat < (start.after calls).store.mark
  /-- The same ticks and tags have the same effect on any store with the same records and the same next id. -/
  repeated : ∀ (other : Buffer historyCapacity storeCapacity) (again : List Call),
    other.recorder = start.recorder → other.store.nextId = start.store.nextId →
    other.store.cache.toList = start.store.cache.toList → again.map Call.event = calls.map Call.event →
    other.ids again = start.ids calls ∧ (other.after again).recorder = (start.after calls).recorder ∧
      (other.after again).store.nextId = (start.after calls).store.nextId ∧
      (other.after again).store.cache.toList = (start.after calls).store.cache.toList

/-- A buffer neither loses nor doubles nor reorders episodes, whatever becomes of the files. -/
theorem reliable (start : Buffer historyCapacity storeCapacity) (calls : List Call) : Reliable start calls where
  program tag files := by rw [answer, stepBy_persist]
  answered tag files writer := by
    rw [answer_step]
    cases ((start.after calls).capture.step (start.after calls).history tag).1 <;> simp
  recorded := recorder_after start calls
  enrolled := enrolled_after start calls
  below := (enrolled_after start calls).below
  repeated := by
    intro other again recorder nextId cached events
    have repetition := enrolled_after other again
    rw [recorder, events] at repetition
    obtain ⟨ids, last, records⟩ := (enrolled_after start calls).unique repetition nextId cached
    exact ⟨ids, by rw [recorder_after, recorder_after, recorder, events], last, records⟩

end Buffer

end EpisodicReplay
