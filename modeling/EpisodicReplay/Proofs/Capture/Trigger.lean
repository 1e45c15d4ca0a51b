import EpisodicReplay.Proofs.Capture.Schedule

/-!
When a capture accepts a trigger, whatever the history shows. Triggers and returned episodes alternate, and the
debounce between them is exact to the step.
-/

namespace EpisodicReplay

namespace Capture
variable {capacity : Nat} {capture next : Capture} {history : History capacity} {entries : List History.Entry}
  {tag : Tag} {episode : Episode} {remaining lastSequence : Nat} {state : CaptureState}

/-- The counters stay inside the window: an active capture waits for some entry and has no debounce. -/
def Steady (capture : Capture) : Prop :=
  match capture.state with
  | .idle => capture.debounce ≤ capture.window.after
  | .capturing _ remaining _ => capture.debounce = 0 ∧ 0 < remaining ∧ remaining ≤ capture.window.after

theorem isCapturing_of_idle (idle : capture.state = .idle) : capture.isCapturing = false := by
  rw [isCapturing, idle]

theorem idle_of_not_capturing (resting : capture.isCapturing = false) : capture.state = .idle := by
  unfold isCapturing at resting
  split at resting
  · assumption
  · cases resting

/-- What a step can do with a capture. The flag tells whether it accepts a trigger. -/
inductive Moves (capture : Capture) : Bool → Option Episode → Capture → Prop where
  | rest (idle : capture.state = .idle) :
      Moves capture false none { capture with debounce := capture.debounce - 1 }
  | whole (idle : capture.state = .idle) (ready : capture.debounce - 1 = 0) (narrow : capture.window.after = 0)
      (episode : Episode) : Moves capture true (some episode) { capture with debounce := 0 }
  | begin (idle : capture.state = .idle) (ready : capture.debounce - 1 = 0) (wide : 0 < capture.window.after)
      (episode : Episode) (lastSequence : Nat) :
      Moves capture true none
        { capture with debounce := 0, state := .capturing episode capture.window.after lastSequence }
  | follow (active : capture.isCapturing = true) (episode : Episode) (remaining lastSequence : Nat)
      (waits : 0 < remaining) (inside : remaining ≤ capture.window.after) :
      Moves capture false none { capture with state := .capturing episode remaining lastSequence }
  | complete (active : capture.isCapturing = true) (episode : Episode) :
      Moves capture false (some episode) { capture with debounce := capture.window.after, state := .idle }

/-- Entries that leave a capture open leave it waiting, for no more than before. -/
theorem drain_eq_false (waits : 0 < remaining)
    (drained : drain episode remaining lastSequence entries = (false, state)) :
    ∃ extended left newest, state = .capturing extended left newest ∧ 0 < left ∧ left ≤ remaining := by
  induction entries generalizing episode remaining lastSequence with
  | nil =>
      obtain ⟨-, rfl⟩ := Prod.mk.inj drained
      exact ⟨_, _, _, rfl, waits, Nat.le_refl _⟩
  | cons entry rest inductionHypothesis =>
      rw [drain] at drained
      split at drained
      case isTrue => cases drained
      case isFalse more =>
        have left : 0 < remaining - 1 := by
          rw [Nat.pos_iff_ne_zero]
          intro none
          simp [none] at more
        obtain ⟨extended, fewer, newest, same, positive, bound⟩ := inductionHypothesis left drained
        exact ⟨extended, fewer, newest, same, positive, Nat.le_trans bound (Nat.sub_le _ _)⟩

theorem drain_eq_true (drained : drain episode remaining lastSequence entries = (true, state)) :
    ∃ extended left newest, state = .capturing extended left newest := by
  induction entries generalizing episode remaining lastSequence with
  | nil => cases drained
  | cons entry rest inductionHypothesis =>
      rw [drain] at drained
      split at drained
      case isTrue =>
        obtain ⟨-, rfl⟩ := Prod.mk.inj drained
        exact ⟨_, _, _, rfl⟩
      case isFalse => exact inductionHypothesis drained

theorem advanced_of_idle (idle : capture.state = .idle) :
    capture.advanced history tag = (none, { capture with debounce := capture.debounce - 1 }) := by
  simp only [advanced, addTag, progress, idle]

/-- The first part of a step of an active capture leaves it waiting or completes it. -/
theorem advanced_of_active (steady : capture.Steady) (active : capture.isCapturing = true)
    (history : History capacity) (tag : Tag) :
    (∃ episode remaining lastSequence, capture.advanced history tag =
        (none, { capture with state := .capturing episode remaining lastSequence }) ∧
          0 < remaining ∧ remaining ≤ capture.window.after) ∨
      ∃ episode, capture.advanced history tag =
        (some episode, { capture with debounce := capture.window.after, state := .idle }) := by
  obtain ⟨window, debounce, state⟩ := capture
  cases state with
  | idle => cases active
  | capturing episode remaining lastSequence =>
      obtain ⟨rfl, waits, inside⟩ := steady
      simp only [advanced, addTag, progress]
      generalize drained : drain _ remaining lastSequence (history.entriesAfter lastSequence) = result
      obtain ⟨done, state⟩ := result
      cases done with
      | false =>
          obtain ⟨extended, left, newest, rfl, positive, bound⟩ := drain_eq_false waits drained
          exact .inl ⟨extended, left, newest, rfl, positive, Nat.le_trans bound inside⟩
      | true =>
          obtain ⟨extended, left, newest, rfl⟩ := drain_eq_true drained
          exact .inr ⟨extended, rfl⟩

theorem begin_of_nonempty (nonempty : history.isEmpty = false) (capture : Capture) (tag : Tag) :
    ∃ episode lastSequence, capture.begin history tag =
      if capture.window.after = 0 then capture.finish episode
      else (none, { capture with state := .capturing episode capture.window.after lastSequence }) := by
  let seeded := seed history tag (min capture.window.before (history.size - 1))
  refine ⟨seeded.1, seeded.2, ?_⟩
  rw [begin, nonempty]
  rfl

/-- An idle capture accepts a trigger as soon as its debounce has run out. -/
theorem accepts_of_idle (idle : capture.state = .idle) : capture.accepts history tag = true ↔
    tag.isEmpty = false ∧ capture.debounce - 1 = 0 ∧ history.isEmpty = false := by
  have resting : isCapturing { capture with debounce := capture.debounce - 1 } = false := by
    simp [isCapturing, idle]
  rw [accepts, advanced_of_idle idle]
  simp [resting, and_assoc]

/-- An active capture accepts no trigger, not even when it completes. -/
theorem accepts_of_active (steady : capture.Steady) (active : capture.isCapturing = true)
    (history : History capacity) (tag : Tag) : capture.accepts history tag = false := by
  rw [accepts]
  rcases advanced_of_active steady active history tag with
    ⟨_, _, _, advanced, -⟩ | ⟨_, advanced⟩
  · simp [advanced, isCapturing]
  · have wide : capture.window.after ≠ 0 := by
      obtain ⟨window, debounce, state⟩ := capture
      cases state with
      | idle => cases active
      | capturing episode remaining lastSequence =>
          obtain ⟨-, waits, inside⟩ := steady
          exact Nat.ne_of_gt (Nat.lt_of_lt_of_le waits inside)
    simp [advanced, wide]

/-- Every step of a steady capture is one of the moves. -/
theorem step_moves (steady : capture.Steady) (history : History capacity) (tag : Tag) :
    capture.Moves (capture.accepts history tag) (capture.step history tag).1 (capture.step history tag).2 := by
  cases active : capture.isCapturing with
  | true =>
      have refused := accepts_of_active steady active history tag
      rw [step_of_not_accepts refused, refused]
      rcases advanced_of_active steady active history tag with
        ⟨episode, remaining, lastSequence, advanced, waits, inside⟩ | ⟨episode, advanced⟩
      · rw [advanced]
        exact .follow active episode remaining lastSequence waits inside
      · rw [advanced]
        exact .complete active episode
  | false =>
      have idle := idle_of_not_capturing active
      cases accepted : capture.accepts history tag with
      | false =>
          rw [step_of_not_accepts accepted, advanced_of_idle idle]
          exact .rest idle
      | true =>
          obtain ⟨-, ready, nonempty⟩ := (accepts_of_idle idle).mp accepted
          rw [step_of_accepts accepted, advanced_of_idle idle]
          obtain ⟨episode, lastSequence, begun⟩ :=
            begin_of_nonempty nonempty { capture with debounce := capture.debounce - 1 } tag
          rw [begun]
          split
          case isTrue narrow =>
            have same : (finish { capture with debounce := capture.debounce - 1 } episode).2 =
                { capture with debounce := 0 } := by
              simp only [finish]
              rw [← idle, narrow]
            rw [same]
            exact .whole idle ready narrow episode
          case isFalse wide =>
            rw [ready]
            exact .begin idle ready (Nat.pos_of_ne_zero wide) episode lastSequence

theorem Moves.steady {accepted : Bool} {returned : Option Episode} (moves : capture.Moves accepted returned next)
    (steady : capture.Steady) : next.Steady := by
  obtain ⟨window, debounce, state⟩ := capture
  cases moves with
  | rest idle =>
      obtain rfl : state = .idle := idle
      exact Nat.le_trans (Nat.sub_le _ _) steady
  | whole idle =>
      obtain rfl : state = .idle := idle
      exact Nat.zero_le _
  | begin _ _ wide => exact ⟨rfl, wide, Nat.le_refl _⟩
  | follow active _ _ _ waits inside =>
      cases state with
      | idle => cases active
      | capturing => exact ⟨steady.1, waits, inside⟩
  | complete => exact Nat.le_refl _

end Capture

namespace Recorder
variable {capacity : Nat}

section numbers

/-- The numbers of the steps at which something happens, when the first step has a given number. -/
def stepsWhere (happens : Recorder capacity → Tag → Bool) (recorder : Recorder capacity) (number : Nat) :
    List Event → List Nat
  | [] => []
  | .push tick :: rest => stepsWhere happens (recorder.advance (.push tick)).2 number rest
  | .step tag :: rest =>
    (if happens recorder tag then [number] else []) ++
      stepsWhere happens (recorder.advance (.step tag)).2 (number + 1) rest

/-- The steps of a schedule that accept a trigger. Steps count from zero. -/
def triggers (recorder : Recorder capacity) (events : List Event) : List Nat :=
  recorder.stepsWhere (fun recorder tag => recorder.capture.accepts recorder.history tag) 0 events

/-- The steps of a schedule that return an episode. Steps count from zero. -/
def returns (recorder : Recorder capacity) (events : List Event) : List Nat :=
  recorder.stepsWhere (fun recorder tag => (recorder.capture.step recorder.history tag).1.isSome) 0 events

theorem stepsWhere_append (happens : Recorder capacity → Tag → Bool) (recorder : Recorder capacity) (number : Nat)
    (first second : List Event) : recorder.stepsWhere happens number (first ++ second) =
      recorder.stepsWhere happens number first ++
        (recorder.after first).stepsWhere happens (number + (tags first).length) second := by
  induction first generalizing recorder number with
  | nil => rfl
  | cons event rest inductionHypothesis =>
      cases event with
      | push tick => exact inductionHypothesis _ number
      | step tag =>
          have counted : (tags (.step tag :: rest)).length = (tags rest).length + 1 := rfl
          rw [List.cons_append, stepsWhere, inductionHypothesis, stepsWhere, List.append_assoc, counted,
            Nat.add_assoc, Nat.add_comm 1]
          rfl

theorem stepsWhere_push (happens : Recorder capacity → Tag → Bool) (recorder : Recorder capacity)
    (events : List Event) (tick : Tick) :
    recorder.stepsWhere happens 0 (events ++ [.push tick]) = recorder.stepsWhere happens 0 events := by
  rw [stepsWhere_append]
  exact List.append_nil _

theorem stepsWhere_step (happens : Recorder capacity → Tag → Bool) (recorder : Recorder capacity)
    (events : List Event) (tag : Tag) : recorder.stepsWhere happens 0 (events ++ [.step tag]) =
      recorder.stepsWhere happens 0 events ++
        if happens (recorder.after events) tag then [(tags events).length] else [] := by
  rw [stepsWhere_append, Nat.zero_add, stepsWhere, stepsWhere, List.append_nil]

end numbers

/-- Triggers and returned episodes take turns, where an episode may be returned by the step of its own trigger. All
of them have numbers below a bound. -/
structure Alternate (bound : Nat) (triggers returns : List Nat) : Prop where
  triggersBelow : ∀ trigger ∈ triggers, trigger < bound
  returnsBelow : ∀ returned ∈ returns, returned < bound
  ordered : ∀ (index trigger returned : Nat), triggers[index]? = some trigger → returns[index]? = some returned →
    trigger ≤ returned
  apart : ∀ (index returned trigger : Nat), returns[index]? = some returned → triggers[index + 1]? = some trigger →
    returned < trigger

namespace Alternate
variable {bound number : Nat} {triggers returns : List Nat}

theorem nil : Alternate bound [] [] :=
  ⟨by simp, by simp, by simp, by simp⟩

theorem succ (alternate : Alternate bound triggers returns) : Alternate (bound + 1) triggers returns :=
  { alternate with
    triggersBelow := fun trigger member => Nat.lt_succ_of_lt (alternate.triggersBelow trigger member)
    returnsBelow := fun returned member => Nat.lt_succ_of_lt (alternate.returnsBelow returned member) }

/-- The next trigger comes after all returned episodes, which are as many as the triggers before. -/
theorem trigger (alternate : Alternate number triggers returns) (even : triggers.length = returns.length) :
    Alternate (number + 1) (triggers ++ [number]) returns where
  triggersBelow := by
    intro trigger member
    rcases List.mem_append.mp member with earlier | last
    · exact Nat.lt_succ_of_lt (alternate.triggersBelow trigger earlier)
    · exact Nat.lt_succ_of_le (Nat.le_of_eq (List.mem_singleton.mp last))
  returnsBelow := alternate.succ.returnsBelow
  ordered := by
    intro index trigger returned triggered answered
    have inside : index < triggers.length := even ▸ (List.getElem?_eq_some_iff.mp answered).1
    rw [List.getElem?_append_left inside] at triggered
    exact alternate.ordered index trigger returned triggered answered
  apart := by
    intro index returned trigger answered triggered
    rcases Nat.lt_or_ge (index + 1) triggers.length with inside | outside
    · rw [List.getElem?_append_left inside] at triggered
      exact alternate.apart index returned trigger answered triggered
    · rw [List.getElem?_append_right outside] at triggered
      have last : trigger = number := by
        have member := List.mem_of_getElem? triggered
        exact List.mem_singleton.mp member
      rw [last]
      exact alternate.returnsBelow returned (List.mem_of_getElem? answered)

/-- The episode of the last trigger is returned after it. -/
theorem complete (alternate : Alternate bound triggers returns) (inside : number < bound)
    (later : ∀ trigger ∈ triggers, trigger ≤ number) (odd : triggers.length = returns.length + 1) :
    Alternate bound triggers (returns ++ [number]) where
  triggersBelow := alternate.triggersBelow
  returnsBelow := by
    intro returned member
    rcases List.mem_append.mp member with earlier | last
    · exact alternate.returnsBelow returned earlier
    · rwa [List.mem_singleton.mp last]
  ordered := by
    intro index trigger returned triggered answered
    rcases Nat.lt_or_ge index returns.length with early | late
    · rw [List.getElem?_append_left early] at answered
      exact alternate.ordered index trigger returned triggered answered
    · rw [List.getElem?_append_right late] at answered
      rw [List.mem_singleton.mp (List.mem_of_getElem? answered)]
      exact later trigger (List.mem_of_getElem? triggered)
  apart := by
    intro index returned trigger answered triggered
    have bounded := (List.getElem?_eq_some_iff.mp triggered).1
    rw [List.getElem?_append_left (by omega)] at answered
    exact alternate.apart index returned trigger answered triggered

end Alternate

/-- What a capture shows of the steps before: the triggers and returned episodes so far, and the debounce that is
left of the last one. -/
structure Timed (capture : Capture) (number : Nat) (triggers returns : List Nat) : Prop where
  steady : capture.Steady
  alternate : Alternate number triggers returns
  counted : triggers.length = returns.length + if capture.isCapturing then 1 else 0
  debounced : capture.isCapturing = false →
    capture.debounce = (returns.getLast?.map fun last => last + 1 + capture.window.after - number).getD 0

/-- A step keeps the time, whatever it does. -/
theorem Timed.step {capture next : Capture} {number : Nat} {triggers returns : List Nat}
    (timed : Timed capture number triggers returns) {accepted : Bool} {returned : Option Episode}
    (moves : capture.Moves accepted returned next) :
    Timed next (number + 1) (triggers ++ if accepted then [number] else [])
      (returns ++ if returned.isSome then [number] else []) := by
  have steady := moves.steady timed.steady
  have counted := timed.counted
  have alternate := timed.alternate
  cases moves with
  | rest idle =>
      rw [Capture.isCapturing_of_idle idle] at counted
      have still : Capture.isCapturing { capture with debounce := capture.debounce - 1 } = false :=
        Capture.isCapturing_of_idle idle
      refine ⟨steady, ?_, ?_, fun _ => ?_⟩
      · simpa using alternate.succ
      · simpa [still] using counted
      · have debounce := timed.debounced (Capture.isCapturing_of_idle idle)
        simp only [Option.isSome_none, Bool.false_eq_true, if_false, List.append_nil]
        rw [debounce]
        cases returns.getLast? with
        | none => rfl
        | some last =>
            simp only [Option.map_some, Option.getD_some]
            omega
  | whole idle ready narrow episode =>
      rw [Capture.isCapturing_of_idle idle] at counted
      have still : Capture.isCapturing { capture with debounce := 0 } = false := Capture.isCapturing_of_idle idle
      have triggered := alternate.trigger counted
      refine ⟨steady, ?_, ?_, fun _ => ?_⟩
      · exact triggered.complete (Nat.lt_succ_self number)
          (fun trigger member => Nat.le_of_lt_succ (triggered.triggersBelow trigger member)) (by simpa using counted)
      · simpa [still] using counted
      · simp [narrow]
  | begin idle ready wide episode lastSequence =>
      rw [Capture.isCapturing_of_idle idle] at counted
      refine ⟨steady, ?_, ?_, fun resting => ?_⟩
      · simpa using alternate.trigger counted
      · simpa [Capture.isCapturing] using counted
      · cases resting
  | follow active episode remaining lastSequence =>
      rw [active] at counted
      refine ⟨steady, ?_, ?_, fun resting => ?_⟩
      · simpa using alternate.succ
      · simpa [Capture.isCapturing] using counted
      · cases resting
  | complete active episode =>
      rw [active] at counted
      refine ⟨steady, ?_, ?_, fun _ => ?_⟩
      · have completed := alternate.succ.complete (Nat.lt_succ_self number)
          (fun trigger member => Nat.le_of_lt (alternate.triggersBelow trigger member)) counted
        simpa using completed
      · simpa [Capture.isCapturing] using counted
      · simp

/-- Every schedule keeps the time, whatever the history held before. -/
theorem timed_after (history : History capacity) (window : Window) (events : List Event) :
    let recorder : Recorder capacity := ⟨history, .ofWindow window⟩
    Timed (recorder.after events).capture (tags events).length (recorder.triggers events)
      (recorder.returns events) := by
  intro recorder
  induction events using List.reverseRecOn with
  | nil => exact ⟨Nat.zero_le _, .nil, rfl, fun _ => rfl⟩
  | append_singleton earlier event inductionHypothesis =>
      rw [after_concat]
      cases event with
      | push tick =>
          rw [tags_push, triggers, returns, stepsWhere_push, stepsWhere_push]
          exact inductionHypothesis
      | step tag =>
          have moves := Capture.step_moves inductionHypothesis.steady (recorder.after earlier).history tag
          have stepped := inductionHypothesis.step moves
          rw [tags_step, List.length_append, List.length_singleton, triggers, returns, stepsWhere_step,
            stepsWhere_step]
          exact stepped

/-- When steps accept triggers and return episodes: what a recorder shows after the triggers and returned episodes of
its steps so far, where `after` ticks of a window follow the trigger. The next step has the number `number`. -/
structure Debounced (after number : Nat) (triggers returns : List Nat) (now : Recorder capacity) : Prop where
  accepts_iff : ∀ tag, now.capture.accepts now.history tag = true ↔
    tag.isEmpty = false ∧ now.history.isEmpty = false ∧ now.capture.isCapturing = false ∧
      ∀ last, returns.getLast? = some last → last + after ≤ number
  shown : now.capture.isCapturing = false → ∀ tag, now.capture.accepts now.history tag = true ↔
    (now.advance (.step tag)).1.isSome ∨ (now.advance (.step tag)).2.capture.isCapturing = true
  alternate : Alternate number triggers returns
  answered : triggers.length = returns.length + if now.capture.isCapturing then 1 else 0
  kept : ∀ tag episode, (now.capture.advanced now.history tag).1 = some episode →
    (now.advance (.step tag)).1 = some episode ∧ (now.advance (.step tag)).2.capture.isCapturing = false
  alone : now.capture.isCapturing = true → ∀ tag, now.capture.accepts now.history tag = false ∧
    now.capture.step now.history tag = now.capture.advanced now.history tag
  active : ∀ remaining, now.capture.remaining? = some remaining →
    now.capture.debounce = 0 ∧ 1 ≤ remaining ∧ remaining ≤ after
  idle : now.capture.remaining? = none → now.capture.debounce ≤ after

/-- A recorder that has kept the time is debounced exactly. -/
theorem Timed.debounced_now {now : Recorder capacity} {number : Nat} {triggers returns : List Nat}
    (timed : Timed now.capture number triggers returns) :
    Debounced now.capture.window.after number triggers returns now where
  accepts_iff := by
    intro tag
    cases active : now.capture.isCapturing with
    | true => simp [Capture.accepts_of_active timed.steady active]
    | false =>
        rw [Capture.accepts_of_idle (Capture.idle_of_not_capturing active), timed.debounced active]
        cases answered : returns.getLast? with
        | none => simp
        | some last =>
            have below := timed.alternate.returnsBelow last (List.mem_of_getLast? answered)
            have expired : last + 1 + now.capture.window.after - number - 1 = 0 ↔
                last + now.capture.window.after ≤ number := by omega
            simp only [Option.map_some, Option.getD_some, expired, Option.some.injEq, forall_eq']
            tauto
  shown := by
    intro resting tag
    have idle := Capture.idle_of_not_capturing resting
    have moves := Capture.step_moves timed.steady now.history tag
    rw [advance_step]
    generalize now.capture.accepts now.history tag = accepted at moves
    generalize now.capture.step now.history tag = stepped at moves
    obtain ⟨returned, next⟩ := stepped
    cases moves with
    | rest => simp [Capture.isCapturing, idle]
    | whole => simp
    | begin => simp [Capture.isCapturing]
    | follow active => simp [resting] at active
    | complete active => simp [resting] at active
  alternate := timed.alternate
  answered := timed.counted
  kept := by
    intro tag episode finished
    have active : now.capture.isCapturing = true := by
      by_contra resting
      rw [Capture.advanced_of_idle (Capture.idle_of_not_capturing (Bool.eq_false_of_not_eq_true resting))] at finished
      cases finished
    rw [advance_step, Capture.step_of_not_accepts (Capture.accepts_of_active timed.steady active now.history tag)]
    refine ⟨finished, ?_⟩
    rcases Capture.advanced_of_active timed.steady active now.history tag with
      ⟨_, _, _, advanced, -⟩ | ⟨_, advanced⟩
    · rw [advanced] at finished
      cases finished
    · rw [advanced]
      rfl
  alone := by
    intro active tag
    have refused := Capture.accepts_of_active timed.steady active now.history tag
    exact ⟨refused, Capture.step_of_not_accepts refused⟩
  active := by
    intro remaining waiting
    have steady := timed.steady
    unfold Capture.remaining? at waiting
    unfold Capture.Steady at steady
    split at waiting
    · cases waiting
    case h_2 state =>
      rw [state] at steady
      obtain rfl := Option.some.inj waiting
      exact steady
  idle := by
    intro none
    have steady := timed.steady
    unfold Capture.remaining? at none
    unfold Capture.Steady at steady
    split at none
    case h_1 state =>
      rw [state] at steady
      exact steady
    · cases none

/-- A new capture is debounced exactly after every schedule, whatever the history holds. -/
theorem debounced_after (history : History capacity) (window : Window) (events : List Event) :
    let recorder : Recorder capacity := ⟨history, .ofWindow window⟩
    Debounced window.fitted.after (tags events).length (recorder.triggers events) (recorder.returns events)
      (recorder.after events) := by
  intro recorder
  have shape : (recorder.after events).capture.window = window.fitted := window_after recorder events
  rw [← shape]
  exact (timed_after history window events).debounced_now

end Recorder

end EpisodicReplay
