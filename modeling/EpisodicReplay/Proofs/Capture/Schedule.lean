import EpisodicReplay.Proofs.Capture.Progress

/-! Captures are exact under every schedule of pushes and steps. -/

namespace EpisodicReplay

/-- A history with the capture that reads it. -/
structure Recorder (capacity : Nat) where
  history : History capacity
  capture : Capture

namespace Recorder

inductive Event where
  | push (tick : Tick)
  | step (tag : Tag)

variable {capacity : Nat}

def start (capacity_pos : 0 < capacity) (window : Window) : Recorder capacity :=
  ⟨.empty capacity_pos, .ofWindow window⟩

theorem start_window (capacity_pos : 0 < capacity) (window : Window) :
    (start capacity_pos window).capture.window = window.fitted := rfl

/-- Carries out an event. Returns an episode that it completed. -/
def advance (recorder : Recorder capacity) : Event → Option Episode × Recorder capacity
  | .push tick => (none, { recorder with history := recorder.history.push tick })
  | .step tag =>
    let (episode, capture) := recorder.capture.step recorder.history tag
    (episode, { recorder with capture })

/-- The recorder after a schedule. -/
def after (recorder : Recorder capacity) (events : List Event) : Recorder capacity :=
  events.foldl (fun recorder event => (recorder.advance event).2) recorder

/-- Every entry that a schedule made the newest of the history, oldest first. -/
def recorded (recorder : Recorder capacity) : List Event → List History.Entry
  | [] => []
  | .push tick :: rest =>
    ((recorder.history.push tick).recent? 0).toList ++ (recorder.advance (.push tick)).2.recorded rest
  | .step tag :: rest => (recorder.advance (.step tag)).2.recorded rest

/-- The tags of all steps of a schedule. -/
def tags (events : List Event) : List Tag :=
  events.filterMap fun event =>
    match event with
    | .push _ => none
    | .step tag => some tag

/-- Between two steps there are never more pushes than the history can hold while a capture is under way. -/
def Paced (recorder : Recorder capacity) (events : List Event) : Prop :=
  ∀ (before : List Event) (ticks : List Tick) (tag : Tag) (later : List Event),
    events = before ++ ticks.map .push ++ .step tag :: later → (recorder.after before).capture.isCapturing →
    ticks.length ≤ capacity

@[simp] theorem advance_push (recorder : Recorder capacity) (tick : Tick) :
    recorder.advance (.push tick) = (none, { recorder with history := recorder.history.push tick }) := rfl

@[simp] theorem advance_step (recorder : Recorder capacity) (tag : Tag) :
    recorder.advance (.step tag) = ((recorder.capture.step recorder.history tag).1,
      { recorder with capture := (recorder.capture.step recorder.history tag).2 }) := rfl

@[simp] theorem after_append (recorder : Recorder capacity) (first second : List Event) :
    recorder.after (first ++ second) = (recorder.after first).after second :=
  List.foldl_append

theorem after_concat (recorder : Recorder capacity) (events : List Event) (event : Event) :
    recorder.after (events ++ [event]) = ((recorder.after events).advance event).2 := by
  rw [after_append]
  rfl

theorem recorded_append (recorder : Recorder capacity) (first second : List Event) :
    recorder.recorded (first ++ second) = recorder.recorded first ++ (recorder.after first).recorded second := by
  induction first generalizing recorder with
  | nil => rfl
  | cons event rest inductionHypothesis =>
      cases event with
      | push tick =>
          rw [List.cons_append, recorded, inductionHypothesis, recorded, List.append_assoc]
          rfl
      | step tag =>
          rw [List.cons_append, recorded, inductionHypothesis, recorded]
          rfl

theorem recorded_push (recorder : Recorder capacity) (events : List Event) (tick : Tick) :
    recorder.recorded (events ++ [.push tick]) =
      recorder.recorded events ++ [(recorder.after events).history.incoming tick] := by
  rw [recorded_append]
  simp [recorded, History.recent?_push]

theorem recorded_step (recorder : Recorder capacity) (events : List Event) (tag : Tag) :
    recorder.recorded (events ++ [.step tag]) = recorder.recorded events := by
  rw [recorded_append]
  simp [recorded]

theorem recorded_pushes_length (recorder : Recorder capacity) (events : List Event) (ticks : List Tick) :
    (recorder.recorded (events ++ ticks.map .push)).length = (recorder.recorded events).length + ticks.length := by
  induction ticks using List.reverseRecOn with
  | nil => simp
  | append_singleton earlier tick inductionHypothesis =>
      rw [List.map_append, List.map_singleton, ← List.append_assoc, recorded_push, List.length_append,
        inductionHypothesis, List.length_append, List.length_singleton, List.length_singleton, Nat.add_assoc]

theorem tags_push (events : List Event) (tick : Tick) : tags (events ++ [.push tick]) = tags events := by
  simp [tags, List.filterMap_append]

theorem tags_step (events : List Event) (tag : Tag) : tags (events ++ [.step tag]) = tags events ++ [tag] := by
  simp [tags, List.filterMap_append]

/-- After any schedule the history holds what was recorded. -/
theorem holds_after (capacity_pos : 0 < capacity) (window : Window) (events : List Event) :
    ((start capacity_pos window).after events).history.Holds ((start capacity_pos window).recorded events) := by
  induction events using List.reverseRecOn with
  | nil => exact History.empty_holds capacity_pos
  | append_singleton earlier event inductionHypothesis =>
      rw [after_concat]
      cases event with
      | push tick =>
          rw [recorded_push]
          exact inductionHypothesis.push tick
      | step tag =>
          rw [recorded_step]
          exact inductionHypothesis

/-- No event changes the window. -/
theorem window_after (recorder : Recorder capacity) (events : List Event) :
    (recorder.after events).capture.window = recorder.capture.window := by
  induction events using List.reverseRecOn with
  | nil => rfl
  | append_singleton earlier event inductionHypothesis =>
      rw [after_concat]
      cases event with
      | push tick => exact inductionHypothesis
      | step tag => exact Capture.step_window.trans inductionHypothesis

/-- The position of the first entry of a window that a trigger accepts at the end of a history. -/
def front (window : Window) (history : History capacity) : Nat :=
  history.lastSequence - (min window.before (history.size - 1) + 1)

/-- A trigger that a step accepts begins to follow its window, or completes it at once. -/
theorem step_of_accepts {capture : Capture} {history : History capacity} {entries : List History.Entry} {tag : Tag}
    (holds : history.Holds entries) (fits : capture.window.before + 1 + capture.window.after ≤ Episode.maxLength)
    (accepted : capture.accepts history tag) :
    if capture.window.after = 0 then
      (capture.step history tag).1 = some (.cut entries (front capture.window history) entries.length tag)
    else
      (capture.step history tag).1 = none ∧
        (capture.step history tag).2.Follows entries (front capture.window history) entries.length
          (entries.length + capture.window.after) tag := by
  have nonempty : entries ≠ [] := by
    simp only [Capture.accepts, Bool.and_eq_true, holds.isEmpty, Bool.not_eq_true'] at accepted
    exact List.isEmpty_eq_false_iff.mp accepted.2
  have ready : (capture.advanced history tag).2.debounce = 0 := by
    simp only [Capture.accepts, Bool.and_eq_true, decide_eq_true_eq] at accepted
    exact accepted.1.2
  have short : (capture.advanced history tag).2.window.before < Episode.maxLength := by
    rw [Capture.advanced_window]
    omega
  have begun := Capture.begin_eq tag holds nonempty short
  have size := holds.size
  have pos := history.entries.capacity_pos
  have length := List.length_pos_iff.mpr nonempty
  have seeded : (Episode.empty tag).extend
      ((entries.rtake (min capture.window.before (history.size - 1) + 1)).map History.Entry.tick) =
      .cut entries (front capture.window history) entries.length tag := by
    rw [Episode.cut, front, holds.last, List.rtake, List.take_of_length_le (by rw [List.length_drop])]
  simp only [Capture.advanced_window, seeded] at begun
  rw [Capture.step_of_accepts accepted, begun]
  split
  case isTrue => rfl
  case isFalse waits =>
    -- An episode finished in this very step would have left a debounce, and no trigger is accepted during one.
    have unfinished : (capture.advanced history tag).1 = none := by
      rw [Option.eq_none_iff_forall_ne_some]
      intro episode finished
      exact waits ((Capture.debounce_of_finished finished).symm.trans ready)
    refine ⟨by rw [unfinished]; rfl, ?_⟩
    exact {
      state := by rw [Nat.add_sub_cancel_left]
      window := waits
      ordered := by rw [front, holds.last]; omega
      known := Nat.le_refl _
      waits := by omega
      fits := by rw [front, holds.last]; omega }

/-- The sequence number that completes the window of a trigger at the end of a schedule. -/
def stop (recorder : Recorder capacity) (before : List Event) : Nat :=
  (recorder.after before).history.lastSequence + recorder.capture.window.after

/-- All steps of a schedule that continues another one come before the window of the trigger between is complete. -/
def Short (recorder : Recorder capacity) (before events : List Event) : Prop :=
  ∀ earlier newer others, events = earlier ++ .step newer :: others →
    (recorder.after (before ++ earlier)).history.lastSequence < recorder.stop before

/-- After a trigger and the events behind it, a capture follows the window of the trigger; `known` entries were there
at its last step. -/
def Traces (recorder : Recorder capacity) (before span : List Event) (known : Nat) : Prop :=
  (recorder.after (before ++ span)).capture.Follows (recorder.recorded (before ++ span))
    (front recorder.capture.window (recorder.after before).history) known (recorder.stop before)
    (Tag.union (tags span))

section
variable {recorder : Recorder capacity} {before : List Event} {tag : Tag}

/-- As long as its steps stay short of the end of the window, a schedule has been followed up to its last step. -/
theorem exists_traces (holds : ∀ events, (recorder.after events).history.Holds (recorder.recorded events))
    (fits : recorder.capture.window.before + 1 + recorder.capture.window.after ≤ Episode.maxLength)
    (accepted : (recorder.after before).capture.accepts (recorder.after before).history tag) (middle later : List Event)
    (paced : recorder.Paced (before ++ (Event.step tag :: middle) ++ later))
    (short : recorder.Short before (.step tag :: middle)) :
    ∃ (past : List Event) (ticks : List Tick), before ++ (Event.step tag :: middle) = past ++ ticks.map .push ∧
      (recorder.after past).capture.isCapturing ∧
      recorder.Traces before (.step tag :: middle) (recorder.recorded past).length := by
  induction middle using List.reverseRecOn generalizing later with
  | nil =>
      have below := short [] tag [] rfl
      rw [List.append_nil, stop] at below
      have begun := step_of_accepts (holds before) (by rw [window_after]; exact fits) accepted
      rw [window_after, if_neg (by omega), ← (holds before).last] at begun
      have traced : recorder.Traces before [.step tag] (recorder.recorded (before ++ [.step tag])).length := by
        rw [Traces, after_concat, recorded_step, ← (holds before).last]
        simpa [tags, Tag.union, Tag.none_or, stop] using begun.2
      exact ⟨before ++ [.step tag], [], by simp, traced.isCapturing, traced⟩
  | append_singleton earlier event inductionHypothesis =>
      have regroup : before ++ Event.step tag :: (earlier ++ [event]) =
          before ++ Event.step tag :: earlier ++ [event] := by
        simp
      rw [regroup, List.append_assoc] at paced
      have shorter : recorder.Short before (.step tag :: earlier) := fun front newer others equal =>
        short front newer (others ++ [event]) (by
          rw [← List.cons_append, equal, List.append_assoc]
          rfl)
      obtain ⟨past, ticks, split, capturing, traced⟩ := inductionHypothesis ([event] ++ later) paced shorter
      have holdsNow := holds (before ++ Event.step tag :: earlier)
      cases event with
      | push tick =>
          refine ⟨past, ticks ++ [tick], ?_, capturing, ?_⟩
          · rw [regroup, split, List.map_append, List.append_assoc, List.map_singleton]
          · rw [Traces, regroup, after_concat, recorded_push, ← List.cons_append, tags_push]
            exact traced.append _
      | step newer =>
          have below := short (.step tag :: earlier) newer [] rfl
          have kept : (recorder.recorded (before ++ Event.step tag :: earlier)).length ≤
              (recorder.recorded past).length + capacity := by
            have bound := paced past ticks newer later (by rw [split]; simp) capturing
            rw [split, recorded_pushes_length]
            omega
          have stepped := traced.step holdsNow kept newer
          rw [← holdsNow.last, if_pos below] at stepped
          have next : recorder.Traces before (.step tag :: (earlier ++ [.step newer]))
              (recorder.recorded (before ++ Event.step tag :: (earlier ++ [.step newer]))).length := by
            rw [Traces, regroup, after_concat, recorded_step, ← holdsNow.last, ← List.cons_append, tags_step,
              Tag.union_concat]
            exact stepped.2
          exact ⟨before ++ Event.step tag :: (earlier ++ [.step newer]), [], by simp, next.isCapturing, next⟩

/-- The steps that continue a capture push nothing onto a full episode. -/
theorem takesAll_of_accepts (holds : ∀ events, (recorder.after events).history.Holds (recorder.recorded events))
    (fits : recorder.capture.window.before + 1 + recorder.capture.window.after ≤ Episode.maxLength)
    (accepted : (recorder.after before).capture.accepts (recorder.after before).history tag)
    {later span rest : List Event} {last : Tag} (paced : recorder.Paced (before ++ Event.step tag :: later))
    (split : Event.step tag :: later = span ++ Event.step last :: rest) (short : recorder.Short before span)
    (continues : span ≠ []) {episode : Episode} {remaining lastSequence : Nat}
    (state : (recorder.after (before ++ span)).capture.state = .capturing episode remaining lastSequence) :
    episode.TakesAll
      ((((recorder.after (before ++ span)).history.entriesAfter lastSequence).take remaining).map
        History.Entry.tick) := by
  obtain ⟨event, middle, rfl⟩ := List.exists_cons_of_ne_nil continues
  rw [List.cons_append, List.cons.injEq] at split
  obtain ⟨rfl, rfl⟩ := split
  obtain ⟨_, _, _, _, follows⟩ := exists_traces holds fits accepted middle (.step last :: rest)
    (by rwa [List.append_assoc]) short
  exact follows.takesAll (holds _) state

/-- The first step at which the window of an accepted trigger is complete returns its episode, and no step before
it returns anything. -/
theorem advance_of_accepts (holds : ∀ events, (recorder.after events).history.Holds (recorder.recorded events))
    (fits : recorder.capture.window.before + 1 + recorder.capture.window.after ≤ Episode.maxLength)
    (accepted : (recorder.after before).capture.accepts (recorder.after before).history tag)
    {later span rest : List Event} {last : Tag} (paced : recorder.Paced (before ++ Event.step tag :: later))
    (split : Event.step tag :: later = span ++ Event.step last :: rest) (short : recorder.Short before span) :
    ((recorder.after (before ++ span)).advance (.step last)).1 =
      if (recorder.after (before ++ span)).history.lastSequence < recorder.stop before then none
      else some (.cut (recorder.recorded (before ++ span))
        (front recorder.capture.window (recorder.after before).history) (recorder.stop before)
        (Tag.union (tags (span ++ [Event.step last])))) := by
  have sequence := (holds before).last
  cases span with
  | nil =>
      obtain ⟨rfl, rfl⟩ : tag = last ∧ later = rest := by simpa using split
      have begun := step_of_accepts (holds before) (by rw [window_after]; exact fits) accepted
      rw [window_after] at begun
      rw [List.append_nil, advance_step, stop]
      split at begun
      case isTrue none =>
        rw [if_neg (by omega), begun, none, Nat.add_zero, ← sequence]
        simp [tags, Tag.union, Tag.none_or]
      case isFalse some => rw [if_pos (by omega), begun.1]
  | cons event middle =>
      rw [List.cons_append, List.cons.injEq] at split
      obtain ⟨rfl, rfl⟩ := split
      rw [show before ++ Event.step tag :: (middle ++ Event.step last :: rest) =
        before ++ Event.step tag :: middle ++ Event.step last :: rest by simp] at paced
      obtain ⟨past, ticks, pushes, capturing, follows⟩ := exists_traces holds fits accepted middle _ paced short
      have holdsNow := holds (before ++ Event.step tag :: middle)
      have kept : (recorder.recorded (before ++ Event.step tag :: middle)).length ≤
          (recorder.recorded past).length + capacity := by
        have bound := paced past ticks last rest (by rw [pushes]) capturing
        rw [pushes, recorded_pushes_length]
        omega
      have stepped := follows.step holdsNow kept last
      rw [advance_step, holdsNow.last, tags_step, Tag.union_concat]
      split at stepped
      case isTrue below => rw [if_pos below, stepped.1]
      case isFalse reached => rw [if_neg reached, stepped]

/-- The episode of an accepted trigger has the ticks with the sequence numbers of its window. -/
theorem window_of_accepts (holds : ∀ events, (recorder.after events).history.Holds (recorder.recorded events))
    {window : Window} (same : recorder.capture.window = window)
    (fits : window.before + 1 + window.after ≤ Episode.maxLength)
    (accepted : (recorder.after before).capture.accepts (recorder.after before).history tag)
    {later : List Event} (paced : recorder.Paced (before ++ Event.step tag :: later)) {inFront : Nat}
    (reach : inFront = min window.before ((recorder.after before).history.size - 1)) :
    inFront + 1 + window.after ≤ Episode.maxLength ∧
    (Episode.empty tag).TakesAll (((List.range (inFront + 1)).reverse.filterMap
      (recorder.after before).history.recent?).map History.Entry.tick) ∧
    ∀ span last rest, Event.step tag :: later = span ++ Event.step last :: rest → recorder.Short before span →
      (span ≠ [] → ∀ episode remaining lastSequence,
        (recorder.after (before ++ span)).capture.state = .capturing episode remaining lastSequence →
        episode.TakesAll ((((recorder.after (before ++ span)).history.entriesAfter lastSequence).take remaining).map
          History.Entry.tick)) ∧
      if (recorder.after (before ++ span)).history.lastSequence <
          (recorder.after before).history.lastSequence + window.after then
        ((recorder.after (before ++ span)).advance (.step last)).1 = none
      else ∃ episode, ((recorder.after (before ++ span)).advance (.step last)).1 = some episode ∧
        episode.length = inFront + 1 + window.after ∧
        episode.ticks.toList.map some = (List.range' ((recorder.after before).history.lastSequence - inFront)
          (inFront + 1 + window.after)).map (History.tickNumbered (recorder.recorded (before ++ span))) ∧
        episode.tag = Tag.union (tags (span ++ [Event.step last])) := by
  subst same
  have known := (holds before).last
  have size := (holds before).size
  have positive : 0 < (recorder.after before).history.size := by
    have pos := (recorder.after before).history.entries.capacity_pos
    simp only [Capture.accepts, Bool.and_eq_true, (holds before).isEmpty, Bool.not_eq_true'] at accepted
    have nonempty := List.length_pos_iff.mpr (List.isEmpty_eq_false_iff.mp accepted.2)
    omega
  refine ⟨by omega, Capture.seed_takesAll (holds before) (by omega) (by omega) tag,
    fun span last rest split short => ⟨fun continues _ _ _ =>
      takesAll_of_accepts holds fits accepted paced split short continues, ?_⟩⟩
  have begins : (recorder.after before).history.lastSequence - inFront =
      front recorder.capture.window (recorder.after before).history + 1 := by
    rw [front]
    omega
  have counts : inFront + 1 + recorder.capture.window.after =
      recorder.stop before - front recorder.capture.window (recorder.after before).history := by
    rw [front, stop]
    omega
  have advanced := advance_of_accepts holds fits accepted paced split short
  rw [begins, counts, ← stop]
  split
  case isTrue below => exact advanced.trans (if_pos below)
  case isFalse reached =>
    have there : recorder.stop before ≤ (recorder.recorded (before ++ span)).length := by
      rw [← (holds (before ++ span)).last]
      omega
    exact ⟨_, advanced.trans (if_neg reached), Episode.cut_length there,
      Episode.cut_ticks (holds (before ++ span)) there, rfl⟩

end

/-- Capture windows are exact. An accepted trigger leads to the episode of the ticks with consecutive sequence
numbers round its own, as the history showed them, with the union of the tags of all steps up to the one that
returns it; that is the first step at which the newest of these ticks is there, and no push was refused. -/
theorem episode_of_trigger (capacity_pos : 0 < capacity) (window : Window) (before later : List Event) (tag : Tag)
    (paced : (start capacity_pos window).Paced (before ++ .step tag :: later))
    (accepted : ((start capacity_pos window).after before).capture.accepts
      ((start capacity_pos window).after before).history tag) :
    let recorder := start capacity_pos window
    let history := (recorder.after before).history
    let inFront := min window.fitted.before (history.size - 1)
    let count := inFront + 1 + window.fitted.after
    let stop := history.lastSequence + window.fitted.after
    count ≤ Episode.maxLength ∧
    (Episode.empty tag).TakesAll
      (((List.range (inFront + 1)).reverse.filterMap history.recent?).map History.Entry.tick) ∧
    ∀ span last rest, .step tag :: later = span ++ .step last :: rest →
      (∀ earlier newer others, span = earlier ++ .step newer :: others →
        (recorder.after (before ++ earlier)).history.lastSequence < stop) →
      let now := recorder.after (before ++ span)
      (span ≠ [] → ∀ episode remaining lastSequence,
        now.capture.state = .capturing episode remaining lastSequence →
        episode.TakesAll (((now.history.entriesAfter lastSequence).take remaining).map History.Entry.tick)) ∧
      if now.history.lastSequence < stop then (now.advance (.step last)).1 = none
      else ∃ episode, (now.advance (.step last)).1 = some episode ∧ episode.length = count ∧
        episode.ticks.toList.map some = (List.range' (history.lastSequence - inFront) count).map
          (History.tickNumbered (recorder.recorded (before ++ span))) ∧
        episode.tag = Tag.union (tags (span ++ [.step last])) :=
  window_of_accepts (holds_after capacity_pos window) (start_window capacity_pos window) window.fitted_length accepted
    paced rfl

/-- The second of three ticks triggers, and the step after the third returns all of them. -/
theorem episode_of_second_tick :
    let recorder : Recorder 4 := start (by decide) ⟨1, 1⟩
    let before : List Event := [.push .zero, .push .zero]
    let later : List Event := [.push .zero, .step .lowHarmony]
    recorder.Paced (before ++ .step .spike :: later) ∧
    (recorder.after before).capture.accepts (recorder.after before).history .spike ∧
    ∃ episode, ((recorder.after (before ++ [.step .spike, .push .zero])).advance (.step .lowHarmony)).1 = some episode ∧
      episode.length = 3 ∧
      episode.ticks.toList.map some = [1, 2, 3].map (History.tickNumbered
        (recorder.recorded (before ++ [.step .spike, .push .zero]))) ∧
      episode.tag = ⟨5⟩ := by
  intro recorder before later
  have paced : recorder.Paced (before ++ .step .spike :: later) := by
    intro first ticks tag rest equal _
    have lengths := congrArg List.length equal
    simp [before, later] at lengths
    omega
  have accepted : (recorder.after before).capture.accepts (recorder.after before).history .spike := by decide
  have short : ∀ earlier newer others, [.step .spike, .push .zero] = earlier ++ .step newer :: others →
      (recorder.after (before ++ earlier)).history.lastSequence < 3 := by
    intro earlier newer others equal
    cases earlier with
    | nil => decide
    | cons first rest =>
        have tail := (List.cons.inj equal).2
        cases rest <;> simp at tail
  have result := ((episode_of_trigger (by decide) ⟨1, 1⟩ before later .spike paced accepted).2.2
    [.step .spike, .push .zero] .lowHarmony [] rfl short).2
  exact ⟨paced, accepted, Eq.mp (if_neg (by decide)) result⟩

end Recorder

end EpisodicReplay
