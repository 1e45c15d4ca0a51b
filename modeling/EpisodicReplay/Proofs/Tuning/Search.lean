import EpisodicReplay.Proofs.Tuning.Evaluation
import EpisodicReplay.Proofs.Tuning.Ranking
import EpisodicReplay.Tuning.Search

/-!
A search scores one stream of candidates, and its result is the head of their stable sort by loss. The stream is
the samples and then the refinements of the best of them.
-/

namespace EpisodicReplay.Tuning

/-- What draws give one after the other, and the generator after them. -/
def drawn {α : Type} : List (Generator → α × Generator) → Generator → List α × Generator
  | [], generator => ([], generator)
  | draw :: draws, generator =>
    let (item, next) := draw generator
    let (items, last) := drawn draws next
    (item :: items, last)

theorem length_drawn {α : Type} (draws : List (Generator → α × Generator)) (generator : Generator) :
    (drawn draws generator).1.length = draws.length := by
  induction draws generalizing generator with
  | nil => rfl
  | cons draw draws inductionHypothesis => exact congrArg (· + 1) (inductionHypothesis _)

def trialCount (trials : Nat) : Nat :=
  if trials = 0 then standardTrials else trials

/-- The samples of a search in their order, and the generator after them. -/
def samples (space : Space) (trials : Nat) (seed : UInt64) : List Parameters × Generator :=
  drawn (List.replicate (trialCount trials) space.normalized.sample) (.ofSeed seed)

/-- The base of the refinement with a number, counted from one: equal shares, rounded up, in the order of bases. -/
def baseOf (bases : List Parameters) (refinements number : Nat) : Parameters :=
  bases.getD (number ⌈/⌉ (refinements ⌈/⌉ bases.length) - 1) .standard

section
variable (φ : Type) [SmoothingFilter φ] (episodes : List Episode) (space : Space) (trials refinements : Nat)
  (seed : UInt64)

/-- The parameters of the best samples. -/
def bestSamples : List Parameters :=
  ((sortedByLoss ((samples space trials seed).1.map (evaluate φ episodes))).take refinedBases).map Outcome.parameters

/-- The candidates of a search: the samples, then one draw near a base for each refinement. -/
def candidates : List Parameters :=
  let (sampled, generator) := samples space trials seed
  let bases := bestSamples φ episodes space trials seed
  sampled ++ (drawn ((List.range refinements).map fun index =>
    space.normalized.perturb (baseOf bases refinements (index + 1))) generator).1

end

section bases
variable {α : Type} {bases : List α} {share refinements : Nat}

theorem getElem?_flatMap_replicate (positive : 0 < share) (index : Nat) :
    (bases.flatMap (List.replicate share))[index]? = bases[index / share]? := by
  induction bases generalizing index with
  | nil => rfl
  | cons base rest inductionHypothesis =>
      rw [List.flatMap_cons, List.getElem?_append, List.length_replicate]
      split
      case isTrue inside =>
        rw [List.getElem?_replicate_of_lt inside, Nat.div_eq_of_lt inside]
        rfl
      case isFalse outside =>
        have later : index / share = (index - share) / share + 1 := by
          rw [← Nat.add_div_right _ positive]
          congr 1
          omega
        rw [inductionHypothesis, later, List.getElem?_cons_succ]

theorem ceilDiv_sub_one (positive : 0 < share) {number : Nat} (first : 1 ≤ number) :
    number ⌈/⌉ share - 1 = (number - 1) / share := by
  rw [Nat.ceilDiv_eq_add_pred_div, show number + share - 1 = number - 1 + share by omega,
    Nat.add_div_right _ positive, Nat.add_sub_cancel]

/-- The number of every refinement falls to one of the bases. -/
theorem base_index_lt (nonempty : bases ≠ []) {number : Nat} (first : 1 ≤ number) (last : number ≤ refinements) :
    0 < refinements ⌈/⌉ bases.length ∧ number ⌈/⌉ (refinements ⌈/⌉ bases.length) - 1 < bases.length := by
  have enough : refinements ≤ bases.length * (refinements ⌈/⌉ bases.length) :=
    le_smul_ceilDiv (List.length_pos_iff.mpr nonempty)
  have positive : 0 < refinements ⌈/⌉ bases.length := by
    apply Nat.pos_of_ne_zero
    intro zero
    rw [zero] at enough
    omega
  rw [ceilDiv_sub_one positive first, Nat.div_lt_iff_lt_mul positive]
  exact ⟨positive, by omega⟩

/-- Sharing refinements out gives each of them the base of its number. -/
theorem refinementBases_eq {bases : List Parameters} (nonempty : bases ≠ []) (refinements : Nat) :
    refinementBases bases refinements =
      (List.range refinements).map fun index => baseOf bases refinements (index + 1) := by
  have enough : refinements ≤ bases.length * (refinements ⌈/⌉ bases.length) :=
    le_smul_ceilDiv (List.length_pos_iff.mpr nonempty)
  rw [refinementBases, if_neg (by simpa using nonempty)]
  change (bases.flatMap (List.replicate (refinements ⌈/⌉ bases.length))).take refinements = _
  apply List.ext_getElem?
  intro index
  by_cases inside : index < refinements
  · obtain ⟨positive, existing⟩ := base_index_lt nonempty (Nat.succ_pos index) (Nat.succ_le_of_lt inside)
    rw [List.getElem?_take_of_lt inside, getElem?_flatMap_replicate positive, List.getElem?_map,
      List.getElem?_range inside, Option.map_some, baseOf, List.getD_eq_getElem?_getD,
      List.getElem?_eq_getElem existing, Option.getD_some]
    rw [ceilDiv_sub_one positive (Nat.succ_pos index)] at existing
    simp only [ceilDiv_sub_one positive (Nat.succ_pos index)]
    exact List.getElem?_eq_getElem existing
  · rw [List.getElem?_eq_none, List.getElem?_eq_none]
    · rw [List.length_map, List.length_range]
      omega
    · rw [List.length_take]
      omega

end bases

section progress
variable (φ : Type) [SmoothingFilter φ] (episodes : List Episode)

/-- Draws a candidate and scores it. -/
def Progress.draw (progress : Progress) (draw : Generator → Parameters × Generator) : Progress :=
  let (parameters, generator) := draw progress.generator
  { progress with generator }.consider φ episodes parameters

theorem foldl_consider_generator (progress : Progress) (generator : Generator) (candidates : List Parameters) :
    candidates.foldl (Progress.consider φ episodes) { progress with generator } =
      { candidates.foldl (Progress.consider φ episodes) progress with generator } := by
  induction candidates generalizing progress with
  | nil => rfl
  | cons candidate rest inductionHypothesis => exact inductionHypothesis (progress.consider φ episodes candidate)

/-- Scoring does not change what is drawn. -/
theorem foldl_draw (progress : Progress) (draws : List (Generator → Parameters × Generator)) :
    draws.foldl (Progress.draw φ episodes) progress =
      { (drawn draws progress.generator).1.foldl (Progress.consider φ episodes) progress with
        generator := (drawn draws progress.generator).2 } := by
  induction draws generalizing progress with
  | nil => rfl
  | cons draw draws inductionHypothesis =>
      rw [List.foldl_cons, inductionHypothesis]
      exact congrArg (fun scored : Progress => { scored with generator := (drawn draws (draw progress.generator).2).2 })
        (foldl_consider_generator φ episodes (progress.consider φ episodes (draw progress.generator).1) _ _)

theorem repeat_trial (space : Space) (progress : Progress) (count : Nat) :
    count.repeat (Progress.trial φ episodes space) progress =
      (List.replicate count space.sample).foldl (Progress.draw φ episodes) progress := by
  induction count with
  | zero => rfl
  | succ count inductionHypothesis =>
      rw [List.replicate_succ', List.foldl_append, ← inductionHypothesis]
      rfl

theorem foldl_refine (space : Space) (progress : Progress) (bases : List Parameters) :
    bases.foldl (Progress.refine φ episodes space) progress =
      (bases.map space.perturb).foldl (Progress.draw φ episodes) progress := by
  rw [List.foldl_map]
  rfl

/-- Scoring candidates of finite loss keeps the first of their stable sort and its head. -/
theorem foldl_consider (candidates : List Parameters) (generator : Generator)
    (finite : ∀ candidate, (evaluate φ episodes candidate).isEvaluated) :
    candidates.foldl (Progress.consider φ episodes) ⟨generator, .empty, .unevaluated .standard⟩ =
      ⟨generator, ⟨(sortedByLoss (candidates.map (evaluate φ episodes))).take Ranking.standardCapacity,
        Ranking.standardCapacity⟩,
        (sortedByLoss (candidates.map (evaluate φ episodes))).head?.getD (.unevaluated .standard)⟩ := by
  have allFinite (candidates : List Parameters) :
      ∀ outcome ∈ candidates.map (evaluate φ episodes), outcome.isEvaluated :=
    List.forall_mem_map.mpr fun candidate _ => finite candidate
  rw [sortedByLoss_eq (allFinite candidates)]
  induction candidates using List.reverseRecOn with
  | nil =>
      rw [List.map_nil, List.mergeSort_nil]
      rfl
  | append_singleton candidates candidate inductionHypothesis =>
      rw [List.foldl_append, List.foldl_cons, List.foldl_nil, inductionHypothesis, List.map_append, List.map_singleton]
      have ranked := Ranking.insert_eq (allFinite candidates) (finite candidate)
        (show 0 < Ranking.standardCapacity by decide)
      simp only [Progress.consider, ranked, mergeSort_append_singleton noWorse_trans noWorse_total, head?_insertAfter,
        Option.getD_some, Progress.mk.injEq, true_and]
      cases head : ((candidates.map (evaluate φ episodes)).mergeSort noWorse).head? with
      | none => exact if_pos (Binary32.lt_infinity (finite candidate))
      | some first =>
          have firstFinite : first.isEvaluated :=
            allFinite candidates first (List.mem_mergeSort.mp (List.mem_of_mem_head? head))
          simp only [Option.getD_some, Option.elim_some, loss_lt_iff (finite candidate) firstFinite]
          cases noWorse first (evaluate φ episodes candidate) <;> rfl

end progress

section search
variable (φ : Type) [SmoothingFilter φ] {episodes : List Episode} (space : Space) (trials refinements : Nat)
  (seed : UInt64)

theorem trialCount_pos : 0 < trialCount trials := by
  unfold trialCount
  split
  case isTrue => decide
  case isFalse nonzero => exact Nat.pos_of_ne_zero nonzero

theorem length_samples : (samples space trials seed).1.length = trialCount trials := by
  rw [samples, length_drawn, List.length_replicate]

theorem length_bestSamples (episodes : List Episode) :
    (bestSamples φ episodes space trials seed).length = min refinedBases (trialCount trials) := by
  rw [bestSamples, sortedByLoss, List.length_map, List.length_take, List.length_mergeSort, List.length_map,
    length_samples]

theorem bestSamples_ne_nil (episodes : List Episode) : bestSamples φ episodes space trials seed ≠ [] := by
  have := trialCount_pos trials
  rw [ne_eq, ← List.length_eq_zero_iff, length_bestSamples]
  simp only [refinedBases]
  omega

theorem length_candidates (episodes : List Episode) :
    (candidates φ episodes space trials refinements seed).length = trialCount trials + refinements := by
  simp only [candidates, List.length_append, length_samples, length_drawn, List.length_map, List.length_range]

/-- After its samples a search has scored them in order, and its generator is where they left it. -/
theorem sampled_eq (episodes : List Episode) :
    (trialCount trials).repeat (Progress.trial φ episodes space.normalized)
        ⟨.ofSeed seed, .empty, .unevaluated .standard⟩ =
      { (samples space trials seed).1.foldl (Progress.consider φ episodes)
          ⟨.ofSeed seed, .empty, .unevaluated .standard⟩ with
        generator := (samples space trials seed).2 } := by
  rw [repeat_trial, foldl_draw]
  rfl

/-- The ranking after the samples begins with the bases of the refinements. -/
theorem take_sampled (finite : ∀ candidate, (evaluate φ episodes candidate).isEvaluated) :
    (((samples space trials seed).1.foldl (Progress.consider φ episodes)
      ⟨.ofSeed seed, .empty, .unevaluated .standard⟩).ranking.items.take refinedBases).map Outcome.parameters =
      bestSamples φ episodes space trials seed := by
  rw [foldl_consider φ episodes _ _ finite, bestSamples]
  simp only [List.take_take]
  rfl

/-- A search over at least one tick scores the stream of its candidates. -/
theorem search_eq_foldl (ticked : ∃ episode ∈ episodes, episode.isEmpty = false) :
    search φ episodes space trials refinements seed =
      let scored := (candidates φ episodes space trials refinements seed).foldl (Progress.consider φ episodes)
        ⟨.ofSeed seed, .empty, .unevaluated .standard⟩
      (scored.best, scored.ranking) := by
  have nonempty : episodes.isEmpty = false := by
    obtain ⟨episode, member, -⟩ := ticked
    exact List.isEmpty_eq_false_iff.mpr (List.ne_nil_of_mem member)
  have bases := take_sampled φ space trials seed fun candidate => evaluate_isEvaluated φ candidate ticked
  have shared := refinementBases_eq (bestSamples_ne_nil φ space trials seed episodes) refinements
  have sampled := sampled_eq φ space trials seed episodes
  unfold trialCount at sampled
  simp only [search, nonempty, Bool.false_eq_true, if_false, sampled, bases, shared, candidates, List.foldl_append]
  rw [foldl_refine, foldl_draw]
  simp only [foldl_consider_generator, List.map_map]
  rfl

theorem length_sorted (episodes : List Episode) :
    (sortedByLoss ((candidates φ episodes space trials refinements seed).map (evaluate φ episodes))).length =
      trialCount trials + refinements := by
  rw [sortedByLoss, List.length_mergeSort, List.length_map, length_candidates]

/-- The best of the stream of candidates is the head of their stable sort. -/
theorem exists_scored (ticked : ∃ episode ∈ episodes, episode.isEmpty = false) :
    let candidates := candidates φ episodes space trials refinements seed
    let sorted := sortedByLoss (candidates.map (evaluate φ episodes))
    ∃ best rest, sorted = best :: rest ∧
      candidates.foldl (Progress.consider φ episodes) ⟨.ofSeed seed, .empty, .unevaluated .standard⟩ =
        ⟨.ofSeed seed, ⟨sorted.take Ranking.standardCapacity, Ranking.standardCapacity⟩, best⟩ := by
  intro candidates sorted
  have length : sorted.length = trialCount trials + refinements :=
    length_sorted φ space trials refinements seed episodes
  have positive := trialCount_pos trials
  obtain ⟨best, rest, split⟩ := List.exists_cons_of_length_pos (show 0 < sorted.length by omega)
  refine ⟨best, rest, split, ?_⟩
  have head : sorted.head?.getD (.unevaluated .standard) = best := by
    rw [split]
    rfl
  rw [← head]
  exact foldl_consider φ episodes _ _ fun candidate => evaluate_isEvaluated φ candidate ticked

/-- Candidates that saw no tick change neither the ranking nor the best. -/
theorem foldl_consider_unticked (unticked : ∀ episode ∈ episodes, episode.isEmpty = true) (generator : Generator)
    (candidates : List Parameters) :
    candidates.foldl (Progress.consider φ episodes) ⟨generator, .empty, .unevaluated .standard⟩ =
      ⟨generator, .empty, .unevaluated .standard⟩ := by
  induction candidates with
  | nil => rfl
  | cons candidate rest inductionHypothesis =>
      have still : Progress.consider φ episodes ⟨generator, .empty, .unevaluated .standard⟩ candidate =
          ⟨generator, .empty, .unevaluated .standard⟩ := by
        have unscored : (Outcome.unevaluated candidate).isEvaluated = false := Binary32.isFinite_infinity
        have refused : Ranking.insert .empty (.unevaluated candidate) = (false, .empty) := by
          rw [Ranking.insert, unscored, Bool.not_false, if_pos rfl]
        have notLess : ¬(Outcome.unevaluated candidate).loss < (Outcome.unevaluated .standard).loss :=
          show ¬Binary32.infinity < Binary32.infinity by decide
        rw [Progress.consider, evaluate_eq_unevaluated φ candidate unticked, refused, if_neg notLess]
      rw [List.foldl_cons, still, inductionHypothesis]

theorem search_of_unticked (unticked : ∀ episode ∈ episodes, episode.isEmpty = true) :
    search φ episodes space trials refinements seed = (.unevaluated .standard, .empty) := by
  have sampled := sampled_eq φ space trials seed episodes
  rw [foldl_consider_unticked φ unticked] at sampled
  unfold trialCount at sampled
  simp only [search, sampled]
  cases episodes <;> rfl

/-- A search over at least one tick scores exactly the samples and the refinements, ranks them by a stable sort
and returns the head of the ranking, the earliest candidate of least loss. Without a tick it scores nothing. -/
theorem Tuner.search_eq_sorted (tuner : Tuner) (episodes : List Episode) :
    let bases := bestSamples φ episodes space trials seed
    let candidates := candidates φ episodes space trials refinements seed
    let outcomes := candidates.map (evaluate φ episodes)
    let scored := candidates.foldl (Progress.consider φ episodes) ⟨.ofSeed seed, .empty, .unevaluated .standard⟩
    let (best, searched) := tuner.search φ episodes space trials refinements seed
    if episodes.all Episode.isEmpty then
      best = .unevaluated .standard ∧ searched.ranking.items = []
    else
      bases.length = min 3 (trialCount trials) ∧
      (∀ number, 1 ≤ number → number ≤ refinements →
        number ⌈/⌉ (refinements ⌈/⌉ bases.length) - 1 < bases.length) ∧
      candidates.length = trialCount trials + refinements ∧
      best = scored.best ∧ searched.ranking = scored.ranking ∧
      searched.ranking.items = (sortedByLoss outcomes).take 16 ∧
      searched.ranking.items.length = min 16 (trialCount trials + refinements) ∧
      searched.ranking.items.head? = some best ∧
      ∃ earlier later, outcomes = earlier ++ best :: later ∧ (∀ outcome ∈ earlier, best.loss < outcome.loss) ∧
        ∀ outcome ∈ later, best.loss ≤ outcome.loss := by
  intro bases candidates outcomes scored
  simp only [Tuner.search]
  split
  case isTrue unticked =>
    rw [search_of_unticked φ space trials refinements seed (List.all_eq_true.mp unticked)]
    exact ⟨rfl, rfl⟩
  case isFalse someTick =>
    have ticked : ∃ episode ∈ episodes, episode.isEmpty = false := by
      simpa using someTick
    have finite : ∀ outcome ∈ outcomes, outcome.isEvaluated :=
      List.forall_mem_map.mpr fun candidate _ => evaluate_isEvaluated φ candidate ticked
    have sortedLength : (sortedByLoss outcomes).length = trialCount trials + refinements :=
      length_sorted φ space trials refinements seed episodes
    obtain ⟨best, rest, sorted, scoredEq⟩ := exists_scored φ space trials refinements seed ticked
    change sortedByLoss outcomes = best :: rest at sorted
    change scored = ⟨.ofSeed seed, ⟨(sortedByLoss outcomes).take 16, 16⟩, best⟩ at scoredEq
    have searched :
        Tuning.search φ episodes space trials refinements seed = (best, ⟨(sortedByLoss outcomes).take 16, 16⟩) := by
      rw [search_eq_foldl φ space trials refinements seed ticked]
      change (scored.best, scored.ranking) = _
      rw [scoredEq]
    rw [searched, scoredEq]
    refine ⟨length_bestSamples φ space trials seed episodes, fun number first last => ?_,
      length_candidates φ space trials refinements seed episodes, rfl, rfl, rfl, ?_, ?_,
      earliest_of_sortedByLoss finite sorted⟩
    · exact (base_index_lt (bestSamples_ne_nil φ space trials seed episodes) first last).2
    · rw [List.length_take, sortedLength]
    · rw [sorted]
      rfl

end search

end EpisodicReplay.Tuning
