import EpisodicReplay.Proofs.Tuning.Search
import EpisodicReplay.Proofs.Tuning.Space

/-! A search that writes down what it scores. Whatever it ranks or returns is among that. -/

namespace EpisodicReplay.Tuning

/-- A search under way and the parameters it has scored, in their order. -/
structure Transcript where
  progress : Progress
  scored : List Parameters

/-- Scored outcomes are kept in a ranking only as they are. -/
theorem Ranking.mem_of_mem_insert {ranking : Ranking} {candidate outcome : Outcome}
    (member : outcome ∈ (ranking.insert candidate).2.items) : outcome = candidate ∨ outcome ∈ ranking.items := by
  have sorted {items : List Outcome} (member : outcome ∈ Ranking.insertSorted candidate items) :
      outcome = candidate ∨ outcome ∈ items := by
    change outcome ∈ insertAfter lossLe candidate items at member
    exact List.mem_cons.mp (insertAfter_perm.mem_iff.mp member)
  unfold Ranking.insert at member
  split_ifs at member with _ full
  · exact .inr member
  · cases last : ranking.items.getLast? with
    | none =>
        rw [last] at member
        exact .inr member
    | some worst =>
        simp only [last] at member
        split_ifs at member
        · exact (sorted member).imp_right List.mem_of_mem_dropLast
        · exact .inr member
  · exact sorted member

theorem mem_of_mem_refinementBases {bases : List Parameters} {refinements : Nat} {base : Parameters}
    (member : base ∈ refinementBases bases refinements) : base ∈ bases := by
  unfold refinementBases at member
  split at member
  case isTrue => exact absurd member List.not_mem_nil
  case isFalse =>
    obtain ⟨other, among, copies⟩ := List.mem_flatMap.mp (List.mem_of_mem_take member)
    exact List.eq_of_mem_replicate copies ▸ among

namespace Transcript

def ofSeed (seed : UInt64) : Transcript :=
  ⟨⟨.ofSeed seed, .empty, .unevaluated .standard⟩, []⟩

/-- What refinements of the best samples start from. -/
def bases (transcript : Transcript) (refinements : Nat) : List Parameters :=
  refinementBases ((transcript.progress.ranking.items.take refinedBases).map Outcome.parameters) refinements

section
variable (φ : Type) [SmoothingFilter φ] (episodes : List Episode)

def draw (transcript : Transcript) (draw : Generator → Parameters × Generator) : Transcript :=
  ⟨transcript.progress.draw φ episodes draw, transcript.scored ++ [(draw transcript.progress.generator).1]⟩

/-- Everything that a search keeps was scored. -/
structure Sound (transcript : Transcript) : Prop where
  ranked : ∀ outcome ∈ transcript.progress.ranking.items, outcome ∈ transcript.scored.map (evaluate φ episodes)
  best : transcript.progress.best = .unevaluated .standard ∨
    transcript.progress.best ∈ transcript.scored.map (evaluate φ episodes)

end

section
variable {φ : Type} [SmoothingFilter φ] {episodes : List Episode} {transcript : Transcript}
  (draws : List (Generator → Parameters × Generator))

theorem foldl_draw_progress :
    (draws.foldl (draw φ episodes) transcript).progress = draws.foldl (Progress.draw φ episodes) transcript.progress :=
  (List.foldl_hom progress fun _ _ => rfl).symm

theorem length_foldl_draw :
    (draws.foldl (draw φ episodes) transcript).scored.length = transcript.scored.length + draws.length := by
  induction draws generalizing transcript with
  | nil => rfl
  | cons draw draws inductionHypothesis =>
      rw [List.foldl_cons, inductionHypothesis, Transcript.draw, List.length_append, List.length_singleton,
        List.length_cons, Nat.add_assoc, Nat.add_comm 1]

theorem ofSeed_sound (seed : UInt64) : (ofSeed seed).Sound φ episodes where
  ranked _ member := absurd member List.not_mem_nil
  best := .inl rfl

theorem Sound.ranked_scored (sound : transcript.Sound φ episodes) {outcome : Outcome}
    (member : outcome ∈ transcript.progress.ranking.items) : outcome.parameters ∈ transcript.scored := by
  obtain ⟨parameters, scored, rfl⟩ := List.mem_map.mp (sound.ranked outcome member)
  rwa [evaluate_parameters]

theorem Sound.best_scored (sound : transcript.Sound φ episodes) :
    transcript.progress.best = .unevaluated .standard ∨
      transcript.progress.best.parameters ∈ transcript.scored := by
  apply sound.best.imp_right
  intro member
  obtain ⟨parameters, scored, equal⟩ := List.mem_map.mp member
  rwa [← equal, evaluate_parameters]

theorem Sound.draw (sound : transcript.Sound φ episodes) (draw : Generator → Parameters × Generator) :
    (transcript.draw φ episodes draw).Sound φ episodes := by
  have scored : (transcript.draw φ episodes draw).scored.map (evaluate φ episodes) =
      transcript.scored.map (evaluate φ episodes) ++
        [evaluate φ episodes (draw transcript.progress.generator).1] := List.map_append
  constructor
  · intro outcome member
    rw [scored, List.mem_append, List.mem_singleton]
    exact (Ranking.mem_of_mem_insert member).symm.imp_left (sound.ranked outcome)
  · have kept : (transcript.draw φ episodes draw).progress.best =
        if (evaluate φ episodes (draw transcript.progress.generator).1).loss < transcript.progress.best.loss then
          evaluate φ episodes (draw transcript.progress.generator).1
        else transcript.progress.best := rfl
    rw [kept, scored, List.mem_append, List.mem_singleton]
    split
    · exact .inr (.inr rfl)
    · exact sound.best.imp_right .inl

theorem Sound.foldl_draw (sound : transcript.Sound φ episodes) :
    (draws.foldl (Transcript.draw φ episodes) transcript).Sound φ episodes := by
  induction draws generalizing transcript with
  | nil => exact sound
  | cons draw draws inductionHypothesis => exact inductionHypothesis (sound.draw draw)

/-- What holds of every draw holds of all that is scored. -/
theorem forall_scored {holds : Parameters → Prop} {draws : List (Generator → Parameters × Generator)}
    (drawn : ∀ draw ∈ draws, ∀ generator, holds (draw generator).1) (before : ∀ parameters ∈ transcript.scored,
      holds parameters) : ∀ parameters ∈ (draws.foldl (draw φ episodes) transcript).scored, holds parameters := by
  induction draws generalizing transcript with
  | nil => exact before
  | cons draw draws inductionHypothesis =>
      refine inductionHypothesis (fun other member => drawn other (List.mem_cons_of_mem _ member)) ?_
      intro parameters member
      rcases List.mem_append.mp member with earlier | last
      · exact before parameters earlier
      · rw [List.mem_singleton.mp last]
        exact drawn draw List.mem_cons_self _

end

end Transcript

section
variable (φ : Type) [SmoothingFilter φ] (episodes : List Episode) (space : Space) (trials refinements : Nat)
  (seed : UInt64)

/-- The transcript of a search after its samples. -/
def sampledTranscript : Transcript :=
  (List.replicate (trialCount trials) space.normalized.sample).foldl (Transcript.draw φ episodes) (.ofSeed seed)

/-- The transcript of a whole search. -/
def transcript : Transcript :=
  if episodes.isEmpty then .ofSeed seed
  else
    let sampled := sampledTranscript φ episodes space trials seed
    ((sampled.bases refinements).map space.normalized.perturb).foldl (Transcript.draw φ episodes) sampled

theorem sampledTranscript_progress : (sampledTranscript φ episodes space trials seed).progress =
    (trialCount trials).repeat (Progress.trial φ episodes space.normalized)
      ⟨.ofSeed seed, .empty, .unevaluated .standard⟩ := by
  rw [sampledTranscript, Transcript.foldl_draw_progress, repeat_trial]
  rfl

theorem search_eq_transcript : search φ episodes space trials refinements seed =
    let progress := (transcript φ episodes space trials refinements seed).progress
    (progress.best, progress.ranking) := by
  unfold search transcript
  split
  case isTrue => rfl
  case isFalse =>
    simp only [Transcript.foldl_draw_progress, Transcript.bases, sampledTranscript_progress, foldl_refine]
    rfl

theorem sampledTranscript_sound : (sampledTranscript φ episodes space trials seed).Sound φ episodes :=
  (Transcript.ofSeed_sound seed).foldl_draw _

theorem transcript_sound : (transcript φ episodes space trials refinements seed).Sound φ episodes := by
  unfold transcript
  split
  case isTrue => exact Transcript.ofSeed_sound seed
  case isFalse => exact (sampledTranscript_sound φ episodes space trials seed).foldl_draw _

theorem sampledTranscript_inside : ∀ parameters ∈ (sampledTranscript φ episodes space trials seed).scored,
    space.normalized.Inside parameters := by
  apply Transcript.forall_scored
  · intro draw member generator
    rw [List.eq_of_mem_replicate member]
    exact space.normalized_normal.sample_inside generator
  · exact fun parameters member => absurd member List.not_mem_nil

/-- Refinements start from samples. -/
theorem bases_inside {base : Parameters}
    (member : base ∈ (sampledTranscript φ episodes space trials seed).bases refinements) :
    space.normalized.Inside base := by
  obtain ⟨outcome, ranked, rfl⟩ := List.mem_map.mp (mem_of_mem_refinementBases member)
  exact sampledTranscript_inside φ episodes space trials seed outcome.parameters
    ((sampledTranscript_sound φ episodes space trials seed).ranked_scored (List.mem_of_mem_take ranked))

theorem transcript_inside : ∀ parameters ∈ (transcript φ episodes space trials refinements seed).scored,
    space.normalized.Inside parameters := by
  unfold transcript
  split
  case isTrue => exact fun parameters member => absurd member List.not_mem_nil
  case isFalse =>
    apply Transcript.forall_scored
    · intro draw member generator
      obtain ⟨base, -, rfl⟩ := List.mem_map.mp member
      exact space.normalized_normal.perturb_inside base generator
    · exact sampledTranscript_inside φ episodes space trials seed

variable {episodes}

theorem length_scored (ticked : ∃ episode ∈ episodes, episode.isEmpty = false) :
    (transcript φ episodes space trials refinements seed).scored.length = trialCount trials + refinements := by
  obtain ⟨episode, member, nonempty⟩ := ticked
  have evaluated (parameters : Parameters) := evaluate_isEvaluated φ parameters ⟨episode, member, nonempty⟩
  have best := bestSamples_ne_nil φ space trials seed episodes
  have bases : (sampledTranscript φ episodes space trials seed).bases refinements =
      refinementBases (bestSamples φ episodes space trials seed) refinements := by
    rw [Transcript.bases, sampledTranscript_progress, sampled_eq, ← take_sampled φ space trials seed evaluated]
  rw [transcript, if_neg (by simpa using List.ne_nil_of_mem member)]
  simp only [Transcript.length_foldl_draw, List.length_map, bases, refinementBases_eq best, List.length_range]
  rw [sampledTranscript, Transcript.length_foldl_draw, List.length_replicate]
  exact congrArg (· + refinements) (Nat.zero_add _)

end

end EpisodicReplay.Tuning
