import EpisodicReplay.Proofs.Tuning.Ranking

/-!
Whatever is inserted and cleared, a ranking holds the top of the stable sort of what was inserted since it was last
cleared, and an insertion is admitted just if its own occurrence is there.
-/

namespace EpisodicReplay.Tuning

section occurrences
variable {α : Type} {le : α → α → Bool} {item : α} {items : List α} {count : Nat}

/-- A new item is in the front if the items before it leave room there. -/
theorem mem_take_insertAfter (new : item ∉ items) :
    item ∈ (insertAfter le item items).take count ↔ (items.takeWhile (le · item)).length < count := by
  have notBefore : item ∉ items.takeWhile (le · item) := fun member => new ((List.takeWhile_sublist _).mem member)
  rw [insertAfter, List.take_append, List.mem_append,
    or_iff_right fun member => notBefore (List.mem_of_mem_take member)]
  constructor
  · intro member
    have some := List.length_pos_of_mem member
    rw [List.length_take] at some
    omega
  · intro room
    obtain ⟨left, equal⟩ := Nat.exists_eq_add_of_lt room
    rw [show count - (items.takeWhile (le · item)).length = left + 1 by omega, List.take_succ_cons]
    exact List.mem_cons_self

/-- In a sorted list a front of some length stands before an item if its last item does. -/
theorem length_takeWhile_lt_iff (trans : ∀ first second third : α, le first second → le second third → le first third)
    (sorted : items.Pairwise fun first second => le first second) (inside : count < items.length) :
    (items.takeWhile (le · item)).length < count + 1 ↔ le items[count] item = false := by
  constructor
  · intro short
    by_contra small
    rw [Bool.not_eq_false] at small
    have front : ∀ other ∈ items.take (count + 1), le other item = true := by
      intro other member
      obtain ⟨index, before, rfl⟩ := List.mem_take_iff_getElem.mp member
      rcases Nat.lt_or_ge index count with earlier | last
      · exact trans _ _ _ (List.pairwise_iff_getElem.mp sorted _ _ _ _ earlier) small
      · obtain rfl : index = count := by omega
        exact small
    rw [← List.take_append_drop (count + 1) items, List.takeWhile_append_of_pos front, List.length_append,
      List.length_take_of_le inside] at short
    omega
  · intro greater
    by_contra long
    have among : items[count] ∈ items.takeWhile (le · item) := by
      have bound : count < (items.takeWhile (le · item)).length := by omega
      have same := (List.takeWhile_prefix (p := (le · item)) (l := items)).getElem bound
      rw [← same]
      exact List.getElem_mem bound
    have small := List.mem_takeWhile_imp among
    rw [greater] at small
    cases small

end occurrences

namespace Ranking
variable {candidate : Outcome} {outcomes : List Outcome} {capacity : Nat}

/-- An insertion that is not admitted changes nothing. -/
theorem insert_refused {ranking : Ranking} (refused : (ranking.insert candidate).1 = false) :
    (ranking.insert candidate).2 = ranking := by
  unfold insert at refused ⊢
  split
  case isTrue => rfl
  case isFalse finite =>
    rw [if_neg finite] at refused
    split
    case isTrue full =>
      rw [if_pos full] at refused
      split
      case h_1 worst last =>
        rw [last] at refused
        dsimp only at refused
        split
        case isTrue better =>
          rw [if_pos better] at refused
          cases refused
        case isFalse => rfl
      case h_2 => rfl
    case isFalse room =>
      rw [if_neg room] at refused
      cases refused

/-- A ranking admits a candidate if those that are no worse leave room for it. -/
theorem insert_fst_iff (finite : ∀ outcome ∈ outcomes, outcome.isEvaluated) (candidateFinite : candidate.isEvaluated)
    (positive : 0 < capacity) :
    (Ranking.insert ⟨(outcomes.mergeSort noWorse).take capacity, capacity⟩ candidate).1 = true ↔
      ((outcomes.mergeSort noWorse).takeWhile (noWorse · candidate)).length < capacity := by
  have sorted := List.pairwise_mergeSort noWorse_trans noWorse_total outcomes
  replace finite : ∀ outcome ∈ outcomes.mergeSort noWorse, outcome.isEvaluated := fun outcome member =>
    finite outcome (List.mem_mergeSort.mp member)
  generalize outcomes.mergeSort noWorse = items at sorted finite ⊢
  unfold Ranking.insert
  rw [candidateFinite]
  by_cases full : capacity ≤ items.length
  · obtain ⟨before, rfl⟩ := Nat.exists_eq_succ_of_ne_zero positive.ne'
    have last : (items.take (before + 1)).getLast? = some items[before] := by
      rw [List.take_succ_eq_append_getElem full, List.getLast?_concat]
    rw [length_takeWhile_lt_iff noWorse_trans sorted full,
      ← loss_lt_iff candidateFinite (finite _ (List.getElem_mem full))]
    simp only [Bool.not_true, Bool.false_eq_true, if_false, List.length_take_of_le full, if_true, last]
    split
    case isTrue better => exact iff_of_true rfl better
    case isFalse worse => exact iff_of_false (by simp) worse
  · have few : items.length < capacity := Nat.lt_of_not_le full
    have front := (List.takeWhile_sublist (noWorse · candidate) (l := items)).length_le
    simp only [Bool.not_true, Bool.false_eq_true, if_false, List.length_take, Nat.min_eq_right few.le, few.ne,
      true_iff]
    omega

/-- What is done with a ranking. -/
inductive Act where
  | insert (candidate : Outcome)
  | clear

def act (ranking : Ranking) : Act → Ranking
  | .insert candidate => (ranking.insert candidate).2
  | .clear => ranking.clear

/-- A ranking that began empty, after some acts. -/
def after (capacity : Nat) (acts : List Act) : Ranking :=
  acts.foldl act (ofCapacity capacity)

/-- The candidates of finite loss that were inserted since the last clear, in their order. -/
def candidates (acts : List Act) : List Outcome :=
  acts.foldl (fun outcomes act =>
    match act with
    | .insert candidate => if candidate.isEvaluated then outcomes ++ [candidate] else outcomes
    | .clear => []) []

theorem candidates_insert (acts : List Act) (candidate : Outcome) : candidates (acts ++ [.insert candidate]) =
    if candidate.isEvaluated then candidates acts ++ [candidate] else candidates acts := by
  rw [candidates, List.foldl_concat]
  rfl

theorem candidates_clear (acts : List Act) : candidates (acts ++ [.clear]) = [] := by
  rw [candidates, List.foldl_concat]

theorem after_concat (capacity : Nat) (acts : List Act) (act : Act) :
    after capacity (acts ++ [act]) = (after capacity acts).act act := by
  rw [after, List.foldl_concat]
  rfl

theorem candidates_finite (acts : List Act) : ∀ outcome ∈ candidates acts, outcome.isEvaluated := by
  induction acts using List.reverseRecOn with
  | nil => simp [candidates]
  | append_singleton acts act inductionHypothesis =>
      cases act with
      | insert candidate =>
          rw [candidates_insert]
          split
          case isTrue finite =>
            intro outcome member
            rcases List.mem_append.mp member with earlier | new
            · exact inductionHypothesis outcome earlier
            · exact List.mem_singleton.mp new ▸ finite
          case isFalse => exact inductionHypothesis
      | clear => simp [candidates_clear]

/-- A step that holds the top of what was inserted before holds it afterwards. -/
theorem after_eq (capacity : Nat) (acts : List Act) :
    after capacity acts = ⟨((candidates acts).mergeSort noWorse).take (max capacity 1), max capacity 1⟩ := by
  have positive : 0 < max capacity 1 := by omega
  induction acts using List.reverseRecOn with
  | nil => simp [after, ofCapacity, candidates]
  | append_singleton acts act inductionHypothesis =>
      rw [after_concat, inductionHypothesis]
      cases act with
      | insert candidate =>
          rw [candidates_insert]
          split
          case isTrue finite => exact insert_eq (candidates_finite acts) finite positive
          case isFalse infinite =>
            rw [Bool.not_eq_true] at infinite
            rw [act, insert, infinite, Bool.not_false, if_pos rfl]
      | clear => simp [act, clear, candidates_clear]

/-- The occurrences of outcomes, numbered in their order, as a stable sort by loss ranks them. -/
def occurrences (outcomes : List Outcome) : List (Outcome × Nat) :=
  outcomes.zipIdx.mergeSort fun left right => lossLe left.1 right.1

theorem map_occurrences (outcomes : List Outcome) : (occurrences outcomes).map Prod.fst = sortedByLoss outcomes := by
  have agree : ∀ left ∈ outcomes.zipIdx, ∀ right ∈ outcomes.zipIdx,
      lossLe left.1 right.1 = lossLe left.1 right.1 := fun _ _ _ _ => rfl
  rw [occurrences, List.map_mergeSort agree, List.zipIdx_map_fst, sortedByLoss]

/-- The number of an occurrence is below the number of outcomes. -/
theorem lt_of_mem_occurrences {number : Nat} (member : (candidate, number) ∈ occurrences outcomes) :
    number < outcomes.length := by
  exact List.snd_lt_of_mem_zipIdx (List.mem_mergeSort.mp member)

/-- The order of occurrences by their losses as rationals. -/
def noWorseAt (left right : Outcome × Nat) : Bool :=
  noWorse left.1 right.1

theorem occurrences_eq (finite : ∀ outcome ∈ outcomes, outcome.isEvaluated) :
    occurrences outcomes = outcomes.zipIdx.mergeSort noWorseAt := by
  have agree : ∀ left ∈ outcomes.zipIdx, ∀ right ∈ outcomes.zipIdx,
      lossLe left.1 right.1 = noWorseAt (id left) (id right) := fun left leftMember right rightMember =>
    lossLe_eq (finite _ (List.fst_mem_of_mem_zipIdx leftMember)) (finite _ (List.fst_mem_of_mem_zipIdx rightMember))
  have same := List.map_mergeSort agree
  rwa [List.map_id, List.map_id] at same

/-- The last occurrence is ranked behind all that are no worse. -/
theorem mem_occurrences_concat (finite : ∀ outcome ∈ outcomes, outcome.isEvaluated)
    (candidateFinite : candidate.isEvaluated) :
    (candidate, outcomes.length) ∈ (occurrences (outcomes ++ [candidate])).take capacity ↔
      ((outcomes.mergeSort noWorse).takeWhile (noWorse · candidate)).length < capacity := by
  have allFinite : ∀ outcome ∈ outcomes ++ [candidate], outcome.isEvaluated := by
    intro outcome member
    rcases List.mem_append.mp member with earlier | last
    · exact finite outcome earlier
    · exact List.mem_singleton.mp last ▸ candidateFinite
  have new : (candidate, outcomes.length) ∉ occurrences outcomes := fun member =>
    Nat.lt_irrefl _ (lt_of_mem_occurrences member)
  have firsts : (occurrences outcomes).map Prod.fst = outcomes.mergeSort noWorse := by
    rw [map_occurrences, sortedByLoss_eq finite]
  have trans (first second third : Outcome × Nat) : noWorseAt first second → noWorseAt second third →
      noWorseAt first third := noWorse_trans first.1 second.1 third.1
  have total (first second : Outcome × Nat) : noWorseAt first second || noWorseAt second first :=
    noWorse_total first.1 second.1
  rw [occurrences_eq finite] at new firsts
  rw [occurrences_eq allFinite, List.zipIdx_append, List.zipIdx_singleton, Nat.zero_add,
    mergeSort_append_singleton trans total, mem_take_insertAfter new, ← firsts, List.takeWhile_map, List.length_map]
  rfl

/-- Outcomes in another order have the same losses, seen as numbers, at the top. -/
theorem losses_of_perm {others : List Outcome} (perm : others.Perm outcomes) (count : Nat) :
    ((others.mergeSort noWorse).take count).map (Binary32.value ·.loss) =
      ((outcomes.mergeSort noWorse).take count).map (Binary32.value ·.loss) := by
  have ascending (outcomes : List Outcome) :
      ((outcomes.mergeSort noWorse).map (Binary32.value ·.loss)).Pairwise (· ≤ ·) := by
    rw [List.pairwise_map]
    exact (List.pairwise_mergeSort noWorse_trans noWorse_total outcomes).imp of_decide_eq_true
  have sorted : (others.mergeSort noWorse).Perm (outcomes.mergeSort noWorse) :=
    (List.mergeSort_perm ..).trans (perm.trans (List.mergeSort_perm ..).symm)
  rw [List.map_take, List.map_take,
    (sorted.map _).eq_of_pairwise (fun _ _ _ _ => le_antisymm) (ascending others) (ascending outcomes)]

/-- A ranking holds the top of the stable sort by loss of the candidates since the last clear. It admits a candidate
just if the occurrence of this candidate is in the top then, and stays as it is otherwise. The order of insertion has
no say in the losses that are kept. -/
theorem keeps_top (capacity : Nat) (acts : List Act) :
    let ranking := after capacity acts
    let top (acts : List Act) := (occurrences (candidates acts)).take (max capacity 1)
    ranking.items = (sortedByLoss (candidates acts)).take (max capacity 1) ∧
      ranking.items = (top acts).map Prod.fst ∧
      (∀ candidate,
        ((ranking.insert candidate).1 = true ↔
          (candidate, (candidates acts).length) ∈ top (acts ++ [.insert candidate])) ∧
        ((ranking.insert candidate).1 = false → (ranking.insert candidate).2 = ranking)) ∧
      ranking.items.Pairwise (fun first second => first.loss ≤ second.loss) ∧
      ranking.items.length ≤ max capacity 1 ∧
      ∀ others, (candidates others).Perm (candidates acts) →
        (after capacity others).items.map (Binary32.value ·.loss) = ranking.items.map (Binary32.value ·.loss) := by
  intro ranking top
  have finite := candidates_finite acts
  have reached : ranking = ⟨((candidates acts).mergeSort noWorse).take (max capacity 1), max capacity 1⟩ :=
    after_eq capacity acts
  have items : ranking.items = (sortedByLoss (candidates acts)).take (max capacity 1) := by
    rw [reached, sortedByLoss_eq finite]
  refine ⟨items, ?_, fun candidate => ⟨?_, insert_refused⟩, ?_, ?_, fun others perm => ?_⟩
  · rw [items, List.map_take, map_occurrences]
  · simp only [top]
    rw [candidates_insert]
    split
    case isTrue candidateFinite =>
      rw [mem_occurrences_concat finite candidateFinite, reached]
      exact insert_fst_iff finite candidateFinite (by omega)
    case isFalse infinite =>
      rw [Bool.not_eq_true] at infinite
      rw [insert, infinite, Bool.not_false, if_pos rfl]
      exact iff_of_false (by simp) fun member =>
        Nat.lt_irrefl _ (lt_of_mem_occurrences (List.mem_of_mem_take member))
  · rw [items, sortedByLoss_eq finite]
    refine List.Pairwise.imp_of_mem (fun {first second} firstMember secondMember ordered => ?_)
      ((List.pairwise_mergeSort noWorse_trans noWorse_total (candidates acts)).take)
    have firstFinite := finite first (List.mem_mergeSort.mp (List.mem_of_mem_take firstMember))
    have secondFinite := finite second (List.mem_mergeSort.mp (List.mem_of_mem_take secondMember))
    rw [← lossLe_eq firstFinite secondFinite] at ordered
    exact of_decide_eq_true ordered
  · rw [items, List.length_take]
    exact Nat.min_le_left ..
  · rw [after_eq, reached]
    exact losses_of_perm perm _

/-- The insertion of an outcome with a loss; its warmup tells it from others. -/
def inserting (loss : Float32) (warmup : Nat) : Act :=
  .insert { Outcome.unevaluated { Parameters.standard with warmup } with loss }

/-- Two zeros of different sign, inserted in both orders among other losses, one of them infinite. -/
theorem keeps_top_zeros :
    let acts := [inserting 0.5 1, .clear, inserting 0 2, inserting 0.5 3, inserting (-0) 4]
    let others := [inserting (-0) 4, inserting Binary32.infinity 5, inserting 0.5 3, inserting 0 2]
    (candidates others).Perm (candidates acts) ∧
      (after 2 acts).items.map (·.parameters.warmup) = [2, 4] ∧
      (after 2 others).items.map (·.parameters.warmup) = [4, 2] ∧
      (after 2 others).items.map (Binary32.value ·.loss) = (after 2 acts).items.map (Binary32.value ·.loss) := by
  intro acts others
  have perm : (candidates others).Perm (candidates acts) := by decide +kernel
  exact ⟨perm, by decide +kernel, by decide +kernel, (keeps_top 2 acts).2.2.2.2.2 others perm⟩

end Ranking

end EpisodicReplay.Tuning
