import EpisodicReplay.Episode
import EpisodicReplay.Proofs.Binary32

/-! Episodes hold finite ticks, and take in further ones until they are full. -/

namespace EpisodicReplay

/-- Sanitizing leaves nothing that is not finite. -/
theorem Tick.sanitized_isFinite (tick : Tick) (previous : Option Tick) : (tick.sanitized previous).isFinite := by
  have fallback (value : Float32) := Binary32.finiteOr_isFinite value Binary32.isFinite_zero
  simp [Tick.isFinite, Tick.values, sanitized, zipWith, Binary32.finiteOr_isFinite, fallback]

/-- Sanitizing changes nothing that is finite. -/
theorem Tick.sanitized_of_isFinite {tick : Tick} (finite : tick.isFinite) (previous : Option Tick) :
    tick.sanitized previous = tick := by
  simp only [Tick.isFinite, Tick.values, List.all_cons, List.all_nil, Bool.and_true, Bool.and_eq_true] at finite
  obtain ⟨amp, tempo, consent, influence, harmony, dream, filterDelta, filterAlpha⟩ := finite
  simp only [sanitized, zipWith, Binary32.finiteOr_of_isFinite, amp, tempo, consent, influence, harmony, dream,
    filterDelta, filterAlpha]

namespace Episode

/-- An episode with further ticks behind its own. -/
def extend (episode : Episode) (ticks : List Tick) : Episode :=
  { episode with ticks := episode.ticks ++ ticks.toArray }

@[simp] theorem extend_nil (episode : Episode) : episode.extend [] = episode := by
  simp [extend]

@[simp] theorem extend_extend (episode : Episode) (first second : List Tick) :
    (episode.extend first).extend second = episode.extend (first ++ second) := by
  simp [extend]

@[simp] theorem extend_length (episode : Episode) (ticks : List Tick) :
    (episode.extend ticks).length = episode.length + ticks.length := by
  simp [extend, length]

@[simp] theorem extend_tag (episode : Episode) (ticks : List Tick) : (episode.extend ticks).tag = episode.tag := rfl

@[simp] theorem empty_length (tag : Tag) : (empty tag).length = 0 := rfl

theorem isFull_eq_false {episode : Episode} (room : episode.length < maxLength) : episode.isFull = false :=
  decide_eq_false (Nat.not_le_of_gt room)

/-- A finite tick enters an episode unchanged. -/
theorem push_of_isFinite {episode : Episode} {tick : Tick} (room : episode.length < maxLength)
    (finite : tick.isFinite) : episode.push tick = (true, episode.extend [tick]) := by
  simp [push, isFull_eq_false room, Tick.sanitized_of_isFinite finite, extend]

/-- After a push there is a tick, the new one or those of a full episode. -/
theorem push_ticked (episode : Episode) (tick : Tick) : (episode.push tick).2.isEmpty = false := by
  unfold push
  split
  case isTrue full =>
    have long : maxLength ≤ episode.ticks.size := of_decide_eq_true full
    rw [isEmpty, Array.isEmpty_eq_false_iff, ← Array.size_pos_iff]
    exact Nat.lt_of_lt_of_le (by decide) long
  case isFalse => simp [isEmpty]

/-- Every tick of a list finds room, one after the other. -/
def TakesAll (episode : Episode) : List Tick → Prop
  | [] => True
  | tick :: rest => (episode.push tick).1 = true ∧ (episode.push tick).2.TakesAll rest

theorem takesAll_of_room {ticks : List Tick} {episode : Episode} (room : episode.length + ticks.length ≤ maxLength)
    (finite : ∀ tick ∈ ticks, tick.isFinite) : episode.TakesAll ticks := by
  induction ticks generalizing episode with
  | nil => trivial
  | cons tick rest inductionHypothesis =>
      rw [List.length_cons] at room
      rw [TakesAll, push_of_isFinite (by omega) (finite tick List.mem_cons_self)]
      refine ⟨rfl, inductionHypothesis ?_ fun other member => finite other (List.mem_cons_of_mem tick member)⟩
      rw [extend_length, List.length_singleton]
      omega

/-- Finite ticks that fit are pushed one after the other without a change. -/
theorem foldl_push_of_isFinite {ticks : List Tick} {episode : Episode}
    (room : episode.length + ticks.length ≤ maxLength) (finite : ∀ tick ∈ ticks, tick.isFinite) :
    ticks.foldl (fun episode tick => (episode.push tick).2) episode = episode.extend ticks := by
  induction ticks generalizing episode with
  | nil => simp
  | cons tick rest inductionHypothesis =>
      rw [List.length_cons] at room
      have inside : (episode.extend [tick]).length + rest.length ≤ maxLength := by
        rw [extend_length, List.length_singleton]
        omega
      rw [List.foldl_cons, push_of_isFinite (by omega) (finite tick List.mem_cons_self),
        inductionHypothesis inside fun other member => finite other (List.mem_cons_of_mem tick member), extend_extend]
      rfl

/-- The episodes that the operations on episodes build. -/
inductive Built : Episode → Prop where
  | empty (tag : Tag) : Built (.empty tag)
  | push {episode : Episode} (built : Built episode) (tick : Tick) : Built (episode.push tick).2
  | ofTicks (ticks : List Tick) (tag : Tag) : Built (.ofTicks ticks tag)
  | setTag {episode : Episode} (built : Built episode) (tag : Tag) : Built (episode.setTag tag)

/-- Not too long, and without a channel that is not finite. -/
structure Sound (episode : Episode) : Prop where
  fits : episode.length ≤ maxLength
  finite : ∀ tick ∈ episode.ticks.toList, tick.isFinite

/-- The largest delta of a sound episode is one of its deltas, or zero. -/
theorem Sound.deltaMax_isFinite {episode : Episode} (sound : Sound episode) : episode.deltaMax.isFinite = true := by
  have finite := sound.finite
  unfold deltaMax
  generalize episode.ticks.toList = ticks at finite
  have largest (start : Float32) (begins : start.isFinite = true) :
      (ticks.foldl (fun largest tick => Binary32.maximum largest tick.filterDelta.abs) start).isFinite = true := by
    induction ticks generalizing start with
    | nil => exact begins
    | cons tick rest inductionHypothesis =>
        have channels := List.all_eq_true.mp (finite tick List.mem_cons_self)
        have delta : tick.filterDelta.isFinite = true := channels _ (by simp [Tick.values])
        exact inductionHypothesis (fun other member => finite other (List.mem_cons_of_mem tick member)) _
          (Binary32.isFinite_maximum begins (Binary32.isFinite_abs delta))
  exact largest 0 Binary32.isFinite_zero

theorem Sound.empty (tag : Tag) : Sound (.empty tag) :=
  ⟨Nat.zero_le _, by simp [Episode.empty]⟩

theorem Sound.push {episode : Episode} (sound : Sound episode) (tick : Tick) : Sound (episode.push tick).2 := by
  unfold Episode.push
  split
  case isTrue => exact sound
  case isFalse room =>
    constructor
    · have room : ¬maxLength ≤ episode.length := fun full => room (decide_eq_true full)
      simp only [length, Array.size_push] at room ⊢
      omega
    · intro other member
      rw [Array.toList_push, List.mem_append, List.mem_singleton] at member
      rcases member with earlier | rfl
      · exact sound.finite other earlier
      · exact Tick.sanitized_isFinite ..

theorem Built.sound {episode : Episode} (built : Built episode) : Sound episode := by
  induction built with
  | empty tag => exact .empty tag
  | push built tick inductionHypothesis => exact inductionHypothesis.push tick
  | setTag built tag inductionHypothesis => exact ⟨inductionHypothesis.fits, inductionHypothesis.finite⟩
  | ofTicks ticks tag =>
      have pushed (episode : Episode) (sound : Sound episode) :
          Sound (ticks.foldl (fun episode tick => (episode.push tick).2) episode) := by
        induction ticks generalizing episode with
        | nil => exact sound
        | cons tick rest inductionHypothesis => exact inductionHypothesis _ (sound.push tick)
      exact pushed _ (.empty tag)

/-- The episode of finite ticks that fit holds just these ticks. -/
theorem ofTicks_of_isFinite {ticks : List Tick} (fits : ticks.length ≤ maxLength)
    (finite : ∀ tick ∈ ticks, tick.isFinite) (tag : Tag) : ofTicks ticks tag = ⟨ticks.toArray, tag⟩ := by
  rw [ofTicks, foldl_push_of_isFinite (by rwa [empty_length, Nat.zero_add]) finite]
  simp [extend, Episode.empty]

end Episode

end EpisodicReplay
