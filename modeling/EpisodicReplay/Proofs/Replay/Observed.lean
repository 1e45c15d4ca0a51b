import EpisodicReplay.Proofs.Replay
import EpisodicReplay.Proofs.Tuning.Fraction

/-!
A replay and a score see the same steps of a filter. A filter that keeps a record of its steps behaves like the filter
itself, so both can be asked what they have given it and what they have got.
-/

namespace EpisodicReplay.Replay
open Binary32
open Tuning (Parameters Outcome Totals)

/-- One step of a filter: what it was given, what it answered, and its alpha from then on. -/
structure Call where
  influence : Float32
  harmony : Float32
  consent : Float32
  output : FilterStep
  alpha : Float32

/-- The distance between consent and influence after a step, each in `[0, 1]`. -/
def Call.gap (call : Call) : Float32 :=
  (clampUnit call.output.consent - clampUnit call.output.influence).abs

/-- A filter with its steps so far. -/
structure Observed (φ : Type) where
  filter : φ
  calls : List Call

section
variable {φ : Type} [SmoothingFilter φ]

/-- The step of a filter with what it was given. -/
def callOf (filter : φ) (given : Float32 × Float32 × Float32) : Call × φ :=
  let (influence, harmony, consent) := given
  let (output, next) := SmoothingFilter.step filter influence harmony consent
  (⟨influence, harmony, consent, output, SmoothingFilter.alpha next⟩, next)

instance : SmoothingFilter (Observed φ) where
  fresh alpha warmup := ⟨SmoothingFilter.fresh alpha warmup, []⟩
  step observed influence harmony consent :=
    let (call, next) := callOf observed.filter (influence, harmony, consent)
    (call.output, ⟨next, observed.calls ++ [call]⟩)
  reconfigure alpha warmup :=
    InPlace.on Observed.filter (fun observed filter => { observed with filter })
      (SmoothingFilter.reconfigure alpha warmup)
  alpha observed := SmoothingFilter.alpha observed.filter

/-- The steps that a replay takes over ticks. -/
def callsOf (filter : φ) : List Tick → List Call
  | [] => []
  | tick :: rest =>
    let (call, next) := callOf filter (inputs tick)
    call :: callsOf next rest

theorem length_callsOf (filter : φ) (ticks : List Tick) : (callsOf filter ticks).length = ticks.length := by
  induction ticks generalizing filter with
  | nil => rfl
  | cons tick rest inductionHypothesis => exact congrArg Nat.succ (inductionHypothesis _)

/-- What a step keeps holds of every filter that a replay goes through. -/
theorem exists_of_mem_callsOf (invariant : φ → Prop)
    (keeps : ∀ filter tick, invariant filter → invariant (callOf filter (inputs tick)).2) {filter : φ}
    (holds : invariant filter) {ticks : List Tick} {call : Call} (member : call ∈ callsOf filter ticks) :
    ∃ before tick, invariant before ∧ call = (callOf before (inputs tick)).1 := by
  induction ticks generalizing filter with
  | nil => cases member
  | cons tick rest inductionHypothesis =>
      rcases List.mem_cons.mp member with same | later
      · exact ⟨filter, tick, holds, same⟩
      · exact inductionHypothesis (keeps filter tick holds) later

/-- What falls back before it is clamped and what falls back afterwards is the same, if the fallback needs no
clamping. -/
theorem clampUnit_finiteOr (number : Float32) {fallback : Float32} (unit : InUnit fallback) :
    clampUnit (finiteOr number fallback) = unitOr number fallback := by
  unfold finiteOr unitOr
  split
  case isTrue finite => rw [clampUnit, clampOrLow, if_pos finite]
  case isFalse => exact unit.clampUnit_eq

theorem inputs_inUnit (tick : Tick) :
    InUnit (inputs tick).1 ∧ InUnit (inputs tick).2.1 ∧ InUnit (inputs tick).2.2 := by
  have influence := unitOr_inUnit tick.influence inUnit_zero
  exact ⟨influence, unitOr_inUnit tick.harmony influence, unitOr_inUnit tick.consent inUnit_zero⟩

/-- A score gives a filter what a replay gives it. -/
theorem inputs_eq (tick : Tick) : Tuning.inputs tick = inputs tick := by
  have influence : clampUnit (finiteOr tick.influence 0) = unitOr tick.influence 0 :=
    clampUnit_finiteOr tick.influence inUnit_zero
  have unit : InUnit (unitOr tick.influence 0) := (inputs_inUnit tick).1
  simp only [Tuning.inputs, inputs, influence, clampUnit_finiteOr tick.harmony unit,
    clampUnit_finiteOr tick.consent inUnit_zero]

section trace
variable (source : UInt32) (mode : String)

/-- The trace of the step at an index. -/
def Call.trace (index : Nat) (call : Call) : Trace where
  tick := .ofNat index
  source := source
  delta := sixPlaces call.output.delta
  alpha := sixPlaces call.alpha
  gap := sixPlaces call.gap
  mode := mode

theorem traceTicks_cons (filter : φ) (index : Nat) (tick : Tick) (rest : List Tick) :
    traceTicks source mode filter index (tick :: rest) =
      let (call, next) := callOf filter (inputs tick)
      let (traces, last) := traceTicks source mode next (index + 1) rest
      (call.trace source mode index :: traces, last) :=
  rfl

/-- The traces tell the steps, one by one. -/
theorem traces_eq (filter : φ) (ticks : List Tick) :
    (traceTicks source mode filter 0 ticks).1 = (callsOf filter ticks).mapIdx (Call.trace source mode) := by
  have later (filter : φ) (index : Nat) : (traceTicks source mode filter index ticks).1 =
      (callsOf filter ticks).mapIdx fun offset => Call.trace source mode (offset + index) := by
    induction ticks generalizing filter index with
    | nil => rfl
    | cons tick rest inductionHypothesis =>
        have rest := inductionHypothesis (callOf filter (inputs tick)).2 (index + 1)
        simp only [← Nat.add_assoc, Nat.add_right_comm _ index 1] at rest
        rw [traceTicks_cons, callsOf, List.mapIdx_cons, Nat.zero_add]
        exact congrArg (List.cons _) rest
  exact later filter 0

/-- The traces are numbered from zero on. -/
theorem map_tick_traces {calls : List Call} (narrow : calls.length ≤ UInt32.size) :
    (calls.mapIdx (Call.trace source mode)).map (fun trace => trace.tick.toNat) = List.range calls.length := by
  apply List.ext_getElem
  · simp only [List.length_map, List.length_mapIdx, List.length_range]
  · intro index _ inside
    rw [List.length_range] at inside
    simp only [List.getElem_map, List.getElem_mapIdx, List.getElem_range, Call.trace]
    exact UInt32.toNat_ofNat_of_lt (inside.trans_le narrow)

/-- A record of the steps changes nothing in a replay, and holds what the replay does. -/
theorem traceTicks_observed (observed : Observed φ) (index : Nat) (ticks : List Tick) :
    traceTicks source mode observed index ticks =
      let (traces, last) := traceTicks source mode observed.filter index ticks
      (traces, ⟨last, observed.calls ++ callsOf observed.filter ticks⟩) := by
  induction ticks generalizing observed index with
  | nil => simp [traceTicks, callsOf]
  | cons tick rest inductionHypothesis =>
      have later := inductionHypothesis ⟨(callOf observed.filter (inputs tick)).2,
        observed.calls ++ [(callOf observed.filter (inputs tick)).1]⟩ (index + 1)
      rw [List.append_assoc] at later
      rw [traceTicks_cons, traceTicks_cons]
      exact congrArg (fun traced : List Trace × Observed φ => (_ :: traced.1, traced.2)) later

end trace

section score
variable (allowAlign : Float32)

/-- A record of the steps changes nothing in a score, and holds the same as that of a replay. -/
theorem replayTicks_observed (observed : Observed φ) (totals : Totals) (ticks : List Tick) :
    Tuning.replayTicks allowAlign observed totals ticks =
      let (last, counted) := Tuning.replayTicks allowAlign observed.filter totals ticks
      (⟨last, observed.calls ++ callsOf observed.filter ticks⟩, counted) := by
  induction ticks generalizing observed totals with
  | nil => simp [Tuning.replayTicks, callsOf]
  | cons tick rest inductionHypothesis =>
      have later := inductionHypothesis ⟨(callOf observed.filter (inputs tick)).2,
        observed.calls ++ [(callOf observed.filter (inputs tick)).1]⟩
        (totals.add allowAlign (callOf observed.filter (inputs tick)).1.output)
      rw [List.append_assoc, ← inputs_eq] at later
      rw [callsOf, ← inputs_eq]
      exact later

/-- A score leaves a filter as a replay leaves it. -/
theorem fst_replayTicks (source : UInt32) (mode : String) (filter : φ) (totals : Totals) (index : Nat)
    (ticks : List Tick) :
    (Tuning.replayTicks allowAlign filter totals ticks).1 = (traceTicks source mode filter index ticks).2 := by
  induction ticks generalizing filter totals index with
  | nil => rfl
  | cons tick rest inductionHypothesis =>
      have later := inductionHypothesis (callOf filter (inputs tick)).2
        (totals.add allowAlign (callOf filter (inputs tick)).1.output) (index + 1)
      rw [traceTicks_cons, ← later, ← inputs_eq]
      rfl

/-- A measure of the steps, added up in binary64. -/
def totalOf (measure : Call → Float32) (calls : List Call) : Float :=
  calls.foldl (fun total call => total + widen (measure call)) 0

/-- How many steps leave too wide a gap. -/
def misaligned (calls : List Call) : Nat :=
  calls.countP fun call => allowAlign < call.gap

/-- The totals of steps. -/
def totals (calls : List Call) : Totals where
  delta := totalOf (fun call => finiteOr call.output.delta 0) calls
  harmony := totalOf (fun call => clampUnit call.output.harmony) calls
  consent := totalOf (fun call => clampUnit call.output.consent) calls
  misaligned := misaligned allowAlign calls
  ticks := calls.length

theorem totals_concat (calls : List Call) (call : Call) :
    totals allowAlign (calls ++ [call]) = (totals allowAlign calls).add allowAlign call.output := by
  simp only [totals, totalOf, misaligned, List.foldl_concat, List.countP_append, List.countP_singleton,
    List.length_append, List.length_singleton, ← Bool.cond_eq_ite]
  rfl

/-- A score counts the steps, behind those that were counted before. -/
theorem replayTicks_totals_append (filter : φ) (before : List Call) (ticks : List Tick) :
    (Tuning.replayTicks allowAlign filter (totals allowAlign before) ticks).2 =
      totals allowAlign (before ++ callsOf filter ticks) := by
  induction ticks generalizing filter before with
  | nil => simp [Tuning.replayTicks, callsOf]
  | cons tick rest inductionHypothesis =>
      have later := inductionHypothesis (callOf filter (inputs tick)).2 (before ++ [(callOf filter (inputs tick)).1])
      rw [totals_concat, List.append_assoc, ← inputs_eq] at later
      rw [callsOf, ← inputs_eq]
      exact later

/-- A score counts the steps. -/
theorem replayTicks_totals (filter : φ) (ticks : List Tick) :
    (Tuning.replayTicks allowAlign filter .zero ticks).2 = totals allowAlign (callsOf filter ticks) :=
  replayTicks_totals_append allowAlign filter [] ticks

end score

/-- An outcome tells the means of steps, added up in binary64, and how large a part of them leaves too wide a gap. -/
structure Summarizes (parameters : Parameters) (calls : List Call) (outcome : Outcome) : Prop where
  scored : outcome.parameters = parameters
  deltaMean : outcome.deltaMean =
    Tuning.mean (totalOf (fun call => finiteOr call.output.delta 0) calls) calls.length 1
  harmonyMean : outcome.harmonyMean =
    Tuning.mean (totalOf (fun call => clampUnit call.output.harmony) calls) calls.length 0
  consentMean : outcome.consentMean =
    Tuning.mean (totalOf (fun call => clampUnit call.output.consent) calls) calls.length 0
  misalignRate : outcome.misalignRate =
    Tuning.mean (misaligned parameters.allowAlign calls).toUInt64.toFloat calls.length 1
  fraction : calls.length < 2 ^ 53 →
    Tuning.IsTwiceRounded outcome.misalignRate (misaligned parameters.allowAlign calls / calls.length)
  loss : outcome.loss = Tuning.lossOf outcome.deltaMean outcome.harmonyMean outcome.misalignRate

theorem summarizes_outcome (parameters : Parameters) {calls : List Call} (some : calls ≠ []) :
    Summarizes parameters calls ((totals parameters.allowAlign calls).outcome parameters) := by
  have positive : 0 < calls.length := List.length_pos_iff.mpr some
  rw [Totals.outcome, if_neg (show (totals parameters.allowAlign calls).ticks ≠ 0 from positive.ne')]
  exact ⟨rfl, rfl, rfl, rfl, rfl, fun small => Tuning.mean_isTwiceRounded List.countP_le_length positive small 1, rfl⟩

/-- Scoring one episode is replaying it through the filter that the parameters ask for. -/
theorem evaluate_singleton (φ : Type) [SmoothingFilter φ] (episode : Episode) (parameters : Parameters) :
    Tuning.evaluate φ [episode] parameters =
      (Tuning.replayTicks parameters.allowAlign (SmoothingFilter.fresh (clampUnit parameters.alpha)
        (min parameters.warmup ExponentialFilter.maxWarmup) : φ) .zero episode.ticks.toList).2.outcome parameters := by
  unfold Tuning.evaluate Tuning.totalsOf
  rw [List.foldl_cons, List.foldl_nil]
  split
  case isTrue empty =>
    rw [Episode.isEmpty, Array.isEmpty_iff] at empty
    rw [empty]
    rfl
  case isFalse => rfl

end

variable (φ : Type) [SmoothingFilter φ]

/-- An episode takes a filter through the same steps, whether it is replayed or parameters are scored on it: the traces
tell the steps one by one, and the outcome sums them up. A record of the steps shows it and changes neither. -/
theorem run_episode_eq_evaluate (episode : Episode) (parameters : Parameters) (source : UInt32) (mode : String)
    (log : Option TraceLog) (files : Files) :
    let filter : φ := SmoothingFilter.fresh (clampUnit parameters.alpha)
      (min parameters.warmup ExponentialFilter.maxWarmup)
    let (traces, last) := ((Replay.episode episode source mode filter log).run files).1
    let outcome := Tuning.evaluate φ [episode] parameters
    let observed : Observed φ := SmoothingFilter.fresh (clampUnit parameters.alpha)
      (min parameters.warmup ExponentialFilter.maxWarmup)
    ∃ calls : List Call,
      ((Replay.episode episode source mode observed log).run files).1 = (traces, ⟨last, calls⟩) ∧
      (Tuning.replayTicks parameters.allowAlign observed .zero episode.ticks.toList).1 = ⟨last, calls⟩ ∧
      (Tuning.replayTicks parameters.allowAlign observed .zero episode.ticks.toList).2.outcome parameters = outcome ∧
      Tuning.evaluate (Observed φ) [episode] parameters = outcome ∧
      calls.length = episode.length ∧
      traces = calls.mapIdx (Call.trace source (modeLabel mode)) ∧
      (episode.length ≤ UInt32.size → traces.map (fun trace => trace.tick.toNat) = List.range episode.length) ∧
      if calls = [] then outcome = .unevaluated parameters else Summarizes parameters calls outcome := by
  intro filter
  have outcome : Tuning.evaluate φ [episode] parameters =
      (totals parameters.allowAlign (callsOf filter episode.ticks.toList)).outcome parameters := by
    rw [evaluate_singleton, replayTicks_totals]
  have observed : (SmoothingFilter.fresh (clampUnit parameters.alpha)
      (min parameters.warmup ExponentialFilter.maxWarmup) : Observed φ) = ⟨filter, []⟩ := rfl
  have observedOutcome :
      Tuning.evaluate (Observed φ) [episode] parameters = Tuning.evaluate φ [episode] parameters := by
    rw [evaluate_singleton, evaluate_singleton, observed, replayTicks_observed]
  have length : (callsOf filter episode.ticks.toList).length = episode.length :=
    (length_callsOf ..).trans Array.length_toList
  have traces := traces_eq source (modeLabel mode) filter episode.ticks.toList
  have last (totals : Totals) := fst_replayTicks parameters.allowAlign source (modeLabel mode) filter totals 0
    episode.ticks.toList
  rw [fst_run_episode]
  refine ⟨callsOf filter episode.ticks.toList, ?_, ?_, ?_, observedOutcome, length, ?_, fun narrow => ?_, ?_⟩
  · rw [observed, fst_run_episode, traceTicks_observed]
    rfl
  · rw [observed, replayTicks_observed, ← last .zero]
    rfl
  · rw [observed, replayTicks_observed, evaluate_singleton]
  · rw [traces]
  · rw [traces, ← length]
    exact map_tick_traces source _ (length ▸ narrow)
  · split
    case isTrue none =>
      rw [outcome, none]
      rfl
    case isFalse some =>
      rw [outcome]
      exact summarizes_outcome parameters some

end EpisodicReplay.Replay
