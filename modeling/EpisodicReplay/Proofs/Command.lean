import EpisodicReplay.Proofs.Capture.Step
import EpisodicReplay.Proofs.Tuning.Profile
import EpisodicReplay.Proofs.Tuning.Run

/-! What commands write as errors. Tuning never adds to it, since it ends in an evaluated outcome. -/

namespace EpisodicReplay

/-- Whatever a step finalizes has a tick. -/
theorem Buffer.step_obtained {historyCapacity storeCapacity : Nat} (buffer : Buffer historyCapacity storeCapacity)
    (obtained : buffer.store.Obtained) (tag : Tag) (files : Files) :
    ((buffer.step tag).run files).1.2.store.Obtained := by
  rcases completed : buffer.capture.step buffer.history tag with ⟨_ | episode, capture⟩
  · rw [step, completed]
    exact obtained
  · rw [step, completed]
    exact obtained.finalize files (Capture.step_ticked (congrArg Prod.fst completed))

theorem Demo.State.cycle_obtained {state : State} (obtained : state.buffer.store.Obtained) (index : Nat)
    (files : Files) : ((state.cycle index).run files).1.buffer.store.Obtained :=
  (state.buffer.push _).step_obtained obtained _ files

theorem Demo.State.run_obtained {state : State} (obtained : state.buffer.store.Obtained) (index remaining : Nat)
    (files : Files) : ((state.run index remaining).run files).1.buffer.store.Obtained := by
  induction remaining generalizing state index files with
  | zero => exact obtained
  | succ remaining inductionHypothesis => exact inductionHypothesis (cycle_obtained obtained index files) ..

namespace Command
variable {α β : Type}

theorem run_query (ask : Files → Except Failure α) (terminal : Terminal) :
    (query ask).run.run terminal = (ask terminal.files, terminal) := by
  rw [query, run_bind]
  change (query.liftExcept (ask terminal.files)).run.run terminal = _
  cases ask terminal.files <;> rfl

theorem run_onFiles (action : StateM Files α) (terminal : Terminal) :
    (onFiles action).run.run terminal =
      (.ok (action.run terminal.files).1, { terminal with files := (action.run terminal.files).2 }) := rfl

theorem run_onStateOrFail {σ : Type} (start : σ) (work : Files → InPlace σ α) (terminal : Terminal) :
    (onStateOrFail start work).run.run terminal =
      match (work terminal.files).run.run start with
      | (.ok answer, last) => (.ok (answer, last), terminal)
      | (.error failure, _) => (.error failure, terminal) := by
  rw [onStateOrFail, run_bind]
  change (match (work terminal.files).run.run start with | (.ok answer, last) => _ | (.error failure, _) => _ :
    Action (α × σ)).run.run terminal = _
  rcases (work terminal.files).run.run start with ⟨_ | _, last⟩ <;> rfl

theorem run_say (line : String) (terminal : Terminal) :
    (say line).run.run terminal = (.ok (), { terminal with output := terminal.output ++ line ++ "\n" }) := rfl

theorem run_onFilesOrFail {α : Type} (action : FileAction α) (terminal : Terminal) :
    (onFilesOrFail action).run.run terminal =
      ((action.run.run terminal.files).1, { terminal with files := (action.run.run terminal.files).2 }) := by
  rw [onFilesOrFail, run_bind, run_onFiles]
  dsimp only
  rcases action.run.run terminal.files with ⟨_ | _, later⟩ <;> rfl

/-- Writes no error, and returns only values with a property. -/
def Quietly (post : α → Prop) (action : Action α) : Prop :=
  ∀ terminal, (action.run.run terminal).2.errors = terminal.errors ∧
    ∀ value, (action.run.run terminal).1 = .ok value → post value

/-- Writes no error. -/
abbrev Quiet (action : Action α) : Prop :=
  Quietly (fun _ => True) action

section
variable {post : α → Prop} {action : Action α}

theorem Quietly.pure {value : α} (holds : post value) : Quietly post (return value) :=
  fun _ => ⟨rfl, fun _ returned => Except.ok.inj returned ▸ holds⟩

theorem Quietly.bind {post : β → Prop} {middle : α → Prop} {next : α → Action β} (first : Quietly middle action)
    (rest : ∀ value, middle value → Quietly post (next value)) : Quietly post (action >>= next) := by
  intro terminal
  obtain ⟨errors, returns⟩ := first terminal
  rw [run_bind]
  generalize action.run.run terminal = result at errors returns
  obtain ⟨_ | value, later⟩ := result
  case error => exact ⟨errors, nofun⟩
  case ok =>
    obtain ⟨still, ends⟩ := rest value (returns value rfl) later
    exact ⟨still.trans errors, ends⟩

theorem Quiet.returns {action : Action PUnit} (quiet : Quiet action) (value : α) :
    Quiet (action >>= fun _ => return value) :=
  quiet.bind fun _ _ => .pure trivial

theorem quiet_get : Quiet (get : Action Terminal) :=
  fun _ => ⟨rfl, fun _ _ => trivial⟩

theorem quiet_say (line : String) : Quiet (say line) :=
  fun _ => ⟨rfl, fun _ _ => trivial⟩

theorem quietly_query {ask : Files → Except Failure α} (answers : ∀ files value, ask files = .ok value → post value) :
    Quietly post (query ask) := by
  intro terminal
  rw [run_query]
  exact ⟨rfl, answers terminal.files⟩

theorem quietly_onFiles {action : StateM Files α} (returns : ∀ files, post (action.run files).1) :
    Quietly post (onFiles action) := by
  intro terminal
  rw [run_onFiles]
  exact ⟨rfl, fun value returned => Except.ok.inj returned ▸ returns terminal.files⟩

theorem quietly_onStateOrFail {σ : Type} {start : σ} {work : Files → InPlace σ α}
    (answers : ∀ files value, ((work files).run.run start).1 = .ok value → post value) :
    Quietly (fun answer => post answer.1) (onStateOrFail start work) := by
  intro terminal
  rw [run_onStateOrFail]
  have answered := answers terminal.files
  generalize (work terminal.files).run.run start = result at answered
  rcases result with ⟨_ | value, last⟩
  · exact ⟨rfl, nofun⟩
  · exact ⟨rfl, fun _ returned => Except.ok.inj returned ▸ answered value rfl⟩

theorem quiet_onFiles (action : StateM Files α) : Quiet (onFiles action) :=
  quietly_onFiles fun _ => trivial

theorem quiet_onFilesOrFail (action : FileAction α) : Quiet (onFilesOrFail action) := by
  apply (quiet_onFiles _).bind
  rintro (failure | answer) -
  · exact fun _ => ⟨rfl, nofun⟩
  · exact .pure trivial

theorem quiet_forM (items : List α) {body : α → Action PUnit} (each : ∀ item, Quiet (body item)) :
    Quiet (items.forM body) := by
  induction items with
  | nil => exact .pure trivial
  | cons item items inductionHypothesis => exact (each item).bind fun _ _ => inductionHypothesis

end

theorem quiet_sayHelp : Quiet sayHelp :=
  quiet_forM help quiet_say

theorem quiet_forIn (items : List α) {body : α → PUnit → Action (ForInStep PUnit)}
    (each : ∀ item, Quiet (body item ⟨⟩)) : Quiet (forIn items ⟨⟩ body) := by
  induction items with
  | nil => exact .pure trivial
  | cons item items inductionHypothesis =>
      rw [List.forIn_cons]
      apply (each item).bind
      rintro (_ | _) -
      · exact .pure trivial
      · exact inductionHypothesis

theorem quietly_openStore (paths : DataPaths) : Quietly (·.Obtained) (openStore paths) :=
  quietly_onFiles fun files => .openAt _ paths.logs files

theorem quiet_tuneOn (paths : DataPaths) (config : Config) {store : Store Store.standardCapacity}
    (stocked : store.Stocked) : Quiet (tuneOn paths config store) := by
  unfold tuneOn
  apply (quietly_onStateOrFail fun _ _ ran => Tuning.Tuner.isEvaluated_of_run ExponentialFilter stocked ran).bind
  rintro ⟨best, tuner⟩ evaluated
  -- So nothing is told about a search that did not converge.
  dsimp only at evaluated ⊢
  rw [evaluated]
  apply (quiet_say _).bind
  rintro - -
  apply (quiet_forIn _ fun item => (quiet_say _).bind fun _ _ => .pure trivial).bind
  rintro - -
  apply (quiet_onFiles _).bind
  rintro - -
  exact (quiet_onFilesOrFail _).bind fun _ _ => .pure trivial

theorem quiet_tune (paths : DataPaths) (config : Config) : Quiet (tune paths config) :=
  (quietly_openStore paths).bind fun _ obtained =>
    (quiet_tuneOn paths config obtained.stocked).bind fun _ _ => .pure trivial

theorem quietly_run {start : Demo.State} (obtained : start.buffer.store.Obtained) (cycles : Nat) :
    Quietly (·.buffer.store.Obtained) (onFiles (start.run 0 cycles)) :=
  quietly_onFiles fun files => Demo.State.run_obtained obtained 0 cycles files

theorem quiet_demo (paths : DataPaths) (config : Config) (cycles : Nat) :
    Quiet (demo paths config cycles) := by
  apply (quietly_openStore paths).bind
  intro store obtained
  apply quiet_get.bind
  rintro terminal -
  refine (quietly_run ?_ cycles).bind ?_
  · exact obtained
  intro last obtained
  apply (quiet_say _).bind
  rintro - -
  split
  · exact quiet_say _
  · apply (quiet_tuneOn paths config obtained.stocked).bind
    rintro best -
    apply (quietly_onStateOrFail fun _ _ _ => trivial).bind
    rintro applied -
    exact quiet_say _

theorem quiet_replay (paths : DataPaths) (selector : Selector) :
    Quiet (replay paths selector) := by
  apply (quietly_openStore paths).bind
  rintro store -
  apply quiet_get.bind
  rintro terminal -
  apply (quiet_onFilesOrFail _).bind
  rintro replayed -
  exact quiet_say _

theorem quiet_status (paths : DataPaths) : Quiet (status paths) := by
  apply (quietly_openStore paths).bind
  rintro store -
  apply quiet_get.bind
  rintro terminal -
  apply (quiet_say _).bind
  rintro - -
  exact quiet_forM _ fun record => quiet_say _

/-- Nothing more is written as an error than that there is no such command. -/
def Told (name : String) (terminal later : Terminal) : Prop :=
  later.errors = terminal.errors ∨
    later.errors = terminal.errors ++ ("Unknown command: " ++ name) ++ "\n"

theorem runOnData_told (paths : DataPaths) (config : Config) (name : String) (operand : Option String)
    (terminal : Terminal) : Told name terminal ((runOnData paths config name operand).run.run terminal).2 := by
  unfold runOnData
  split
  case h_1 => exact .inl ((quiet_demo paths config _).returns 0 terminal).1
  case h_2 => exact .inl ((quiet_tune paths config).returns 0 terminal).1
  case h_3 =>
    have replayed (selector : Selector) : Quiet (replay paths selector >>= fun _ => return 0) :=
      (quiet_replay paths selector).returns 0
    left
    cases operand with
    | none => exact (replayed .latest terminal).1
    | some text => exact ((quietly_query fun _ _ _ => trivial).bind (fun selector _ => replayed selector) terminal).1
  case h_4 => exact .inl ((quiet_status paths).returns 0 terminal).1
  case h_5 =>
    let warned : Terminal := { terminal with errors := terminal.errors ++ ("Unknown command: " ++ name) ++ "\n" }
    have written : (warn ("Unknown command: " ++ name)).run.run terminal = (.ok (), warned) := rfl
    rw [run_bind, written]
    exact .inr (quiet_sayHelp.returns 2 warned).1

theorem runCommand_told (invocation : Invocation) (terminal : Terminal) :
    Told (invocation.arguments.head?.getD "demo") terminal ((runCommand invocation).run.run terminal).2 := by
  unfold runCommand
  dsimp only
  split
  case isTrue => exact .inl (quiet_sayHelp.returns 0 terminal).1
  case isFalse =>
    rw [run_bind, run_query]
    cases dataPaths invocation with
    | error failure => exact .inl rfl
    | ok paths =>
        dsimp only
        rw [run_bind, run_query]
        cases Config.load terminal.files paths.config with
        | error failure => exact .inl rfl
        | ok config => exact runOnData_told ..

/-- No command leaves a bracket in front of what it writes as errors. -/
theorem run_errors (invocation : Invocation) (files : Files) :
    (run invocation files).errors.toList.head? ≠ some '[' := by
  have told := runCommand_told invocation ⟨files, "", ""⟩
  unfold run
  generalize (runCommand invocation).run.run ⟨files, "", ""⟩ = result at told
  obtain ⟨outcome, later⟩ := result
  change Told _ _ later at told
  -- What is told about a failure or an unknown command begins with a letter.
  cases outcome <;> rcases told with told | told <;> simp [told]

/-- A run on a store that episodes without ticks do not get into leaves the tuner as it was if no picked episode can
be loaded. Otherwise it spends its budget and ends in the first of its ranking, which was evaluated. So no command
ever tells that a search did not converge. -/
theorem tuning_settles (φ : Type) [SmoothingFilter φ] {capacity : Nat} {store : Store capacity}
    (obtained : store.Obtained) (files : Files) (settings : Tuning.Settings) (tuner : Tuning.Tuner) :
    let ended := (Tuning.Tuner.run φ store files settings).run.run tuner
    Tuning.Tuner.Settles φ store files settings tuner ended.1 ended.2 ∧
      ∀ (invocation : Invocation) (start : Files),
        ¬"[tune] tuning search did not converge.".toList <+: (run invocation start).errors.toList := by
  constructor
  · exact Tuning.Tuner.settles φ obtained.stocked files settings tuner
  · rintro invocation start ⟨rest, split⟩
    apply run_errors invocation start
    simp [← split]

/-- A store that took one episode is tuned on. -/
theorem tuning_settles_singleTick :
    let store := (((Store.inMemory (show 0 < 1 by decide)).finalize Tuning.singleTick).run .empty).1.2
    store.Obtained ∧
      (∃ best tuner, (Tuning.Tuner.run ExponentialFilter store .empty .standard).run.run .standard =
        (.ok best, tuner) ∧ best.isEvaluated ∧ tuner.ranking.items.head? = some best ∧
        tuner.ranking.items.length = 16) ∧
      ¬"[tune] tuning search did not converge.".toList <+:
        (run ⟨["tune"], fun _ => none⟩ .empty).errors.toList := by
  intro store
  have obtained : store.Obtained := (Store.Obtained.inMemory (by decide)).finalize .empty (by decide)
  have picked : (0 : UInt32) ∈ Selector.latest.selectForTuning (store.records .empty) 0 := by decide +kernel
  have loaded : store.episode? .empty 0 ≠ none := by decide +kernel
  obtain ⟨settles, never⟩ := tuning_settles ExponentialFilter obtained .empty .standard .standard
  rcases ended : (Tuning.Tuner.run ExponentialFilter store .empty .standard).run.run .standard with
    ⟨result, tuner⟩
  rw [ended] at settles
  obtain ⟨best, returned, -, spent⟩ := settles.found fun failed => loaded (settles.refused.mp failed 0 picked)
  exact ⟨obtained, ⟨best, tuner, congrArg (·, tuner) returned, spent.evaluated, spent.first, spent.ranked⟩, never _ _⟩

end Command

end EpisodicReplay
