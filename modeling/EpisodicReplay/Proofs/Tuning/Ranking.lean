import EpisodicReplay.Proofs.Binary32
import EpisodicReplay.Tuning.Ranking

/-! A ranking holds the first outcomes of the stable sort by loss of all that were inserted. -/

namespace EpisodicReplay.Tuning

section stable
variable {α : Type} {le : α → α → Bool} {item first : α} {items front back : List α}

/-- Puts an item behind all that are not greater. -/
def insertAfter (le : α → α → Bool) (item : α) (items : List α) : List α :=
  items.takeWhile (le · item) ++ item :: items.dropWhile (le · item)

theorem insertAfter_perm : (insertAfter le item items).Perm (item :: items) := by
  refine List.perm_middle.trans ?_
  rw [List.takeWhile_append_dropWhile]

theorem head?_insertAfter : (insertAfter le item items).head? =
    some (items.head?.elim item fun first => if le first item then first else item) := by
  cases items with
  | nil => rfl
  | cons first rest => by_cases small : le first item = true <;> simp [insertAfter, small]

theorem insertAfter_append_of_le (small : ∀ other ∈ front, le other item = true) :
    insertAfter le item (front ++ back) = front ++ insertAfter le item back := by
  rw [insertAfter, List.takeWhile_append_of_pos small, List.dropWhile_append_of_pos small, List.append_assoc]
  rfl

theorem insertAfter_append_of_greater (greater : ∀ other ∈ back.head?, le other item = false) :
    insertAfter le item (front ++ back) = insertAfter le item front ++ back := by
  induction front with
  | nil =>
      cases back with
      | nil => rfl
      | cons other rest =>
          have := greater other rfl
          simp [insertAfter, this]
  | cons other rest inductionHypothesis =>
      by_cases small : le other item = true
      · have peeled (items : List α) : insertAfter le item (other :: items) = other :: insertAfter le item items := by
          simp [insertAfter, small]
        rw [List.cons_append, peeled, peeled, inductionHypothesis, List.cons_append]
      · simp [insertAfter, small]

/-- An item that comes before another one pushes that one out of the front. -/
theorem take_insertAfter_of_greater {count : Nat} (inside : count < items.length)
    (greater : le items[count] item = false) :
    (insertAfter le item items).take (count + 1) = insertAfter le item (items.take count) := by
  have head : ∀ other ∈ (items.drop count).head?, le other item = false := by
    intro other member
    rw [List.head?_drop, List.getElem?_eq_getElem inside, Option.mem_some_iff] at member
    exact member ▸ greater
  have length : (insertAfter le item (items.take count)).length = count + 1 := by
    rw [insertAfter_perm.length_eq, List.length_cons, List.length_take]
    omega
  conv_lhs => rw [← List.take_append_drop count items, insertAfter_append_of_greater head]
  exact List.take_left' length

/-- An item that comes after a front leaves it as it is. -/
theorem take_insertAfter_of_le {count : Nat} (inside : count ≤ items.length)
    (small : ∀ other ∈ items.take count, le other item = true) :
    (insertAfter le item items).take count = items.take count := by
  conv_lhs => rw [← List.take_append_drop count items, insertAfter_append_of_le small]
  exact List.take_left' (List.length_take_of_le inside)

theorem insertAfter_congr {other : α → α → Bool} (agree : ∀ first ∈ items, le first item = other first item) :
    insertAfter le item items = insertAfter other item items := by
  induction items with
  | nil => rfl
  | cons first rest inductionHypothesis =>
      have tail := inductionHypothesis fun another member => agree another (List.mem_cons_of_mem first member)
      have head := agree first List.mem_cons_self
      by_cases small : le first item = true
      · have otherSmall := head ▸ small
        simp only [insertAfter, List.takeWhile_cons, List.dropWhile_cons, small, otherSmall, if_true] at tail ⊢
        rw [List.cons_append, List.cons_append, tail]
      · have otherGreater := head ▸ small
        simp [insertAfter, small, otherGreater]

/-- A list is cut in one way into items that pass a test and items that fail it. -/
theorem eq_of_append_eq {test : α → Bool} {otherFront otherBack : List α}
    (equal : front ++ back = otherFront ++ otherBack) (pass : ∀ other ∈ front, test other = true)
    (fail : ∀ other ∈ back, test other = false) (otherPass : ∀ other ∈ otherFront, test other = true)
    (otherFail : ∀ other ∈ otherBack, test other = false) : front = otherFront ∧ back = otherBack := by
  have filtered {front back : List α} (pass : ∀ other ∈ front, test other = true)
      (fail : ∀ other ∈ back, test other = false) : (front ++ back).filter test = front := by
    rw [List.filter_append, List.filter_eq_self.mpr pass,
      List.filter_eq_nil_iff.mpr fun other member => by simp [fail other member], List.append_nil]
  have same : front = otherFront := by rw [← filtered pass fail, equal, filtered otherPass otherFail]
  exact ⟨same, List.append_cancel_left (same ▸ equal)⟩

variable (trans : ∀ first second third : α, le first second → le second third → le first third)
  (total : ∀ first second : α, le first second || le second first)
include trans total

/-- The stable sort of a longer list: the new last item goes behind all that are not greater. -/
theorem mergeSort_append_singleton :
    (items ++ [item]).mergeSort le = insertAfter le item (items.mergeSort le) := by
  induction items with
  | nil => simp [insertAfter]
  | cons first items inductionHypothesis =>
      obtain ⟨front, back, whole, shorter, less⟩ := List.mergeSort_cons trans total first (items ++ [item])
      obtain ⟨oldFront, oldBack, oldWhole, oldShorter, oldLess⟩ := List.mergeSort_cons trans total first items
      have sorted := List.pairwise_mergeSort trans total (first :: (items ++ [item]))
      have oldSorted := List.pairwise_mergeSort trans total (first :: items)
      rw [whole, List.pairwise_append, List.pairwise_cons] at sorted
      rw [oldWhole, List.pairwise_append, List.pairwise_cons] at oldSorted
      rw [List.cons_append, whole, oldWhole]
      rw [shorter, oldShorter] at inductionHypothesis
      have pass : ∀ other ∈ front, (!le first other) = true := less
      have fail : ∀ other ∈ back, (!le first other) = false := fun other member => by
        simp [sorted.2.1.1 other member]
      by_cases order : le first item = true
      · -- The first item stays in front of the new one.
        have small : ∀ other ∈ oldFront, le other item = true := fun other member =>
          trans _ _ _ (oldSorted.2.2 other member first List.mem_cons_self) order
        have oldFail : ∀ other ∈ insertAfter le item oldBack, (!le first other) = false := by
          intro other member
          rcases List.mem_cons.mp (insertAfter_perm.mem_iff.mp member) with rfl | member
          · simp [order]
          · simp [oldSorted.2.1.1 other member]
        rw [insertAfter_append_of_le small] at inductionHypothesis
        obtain ⟨rfl, rfl⟩ := eq_of_append_eq inductionHypothesis pass fail oldLess oldFail
        rw [insertAfter_append_of_le small]
        simp [insertAfter, order]
      · -- The new item goes somewhere in front of the first one.
        have reversed : le item first = true := by
          have := total first item
          simp_all
        have greater : ∀ other ∈ oldBack.head?, le other item = false := by
          intro other member
          have above := oldSorted.2.1.1 other (List.mem_of_mem_head? member)
          by_contra small
          exact order (trans _ _ _ above (by simpa using small))
        have oldPass : ∀ other ∈ insertAfter le item oldFront, (!le first other) = true := by
          intro other member
          rcases List.mem_cons.mp (insertAfter_perm.mem_iff.mp member) with rfl | member
          · simp [order]
          · exact oldLess other member
        have oldFail : ∀ other ∈ oldBack, (!le first other) = false := fun other member => by
          simp [oldSorted.2.1.1 other member]
        rw [insertAfter_append_of_greater greater] at inductionHypothesis
        obtain ⟨rfl, rfl⟩ := eq_of_append_eq inductionHypothesis pass fail oldPass oldFail
        rw [insertAfter_append_of_greater (by simpa using order)]

/-- The head of the stable sort is the earliest of the least items. -/
theorem earliest_of_head?_mergeSort {least : α} (head : (items.mergeSort le).head? = some least) :
    ∃ before after, items = before ++ least :: after ∧ (∀ other ∈ before, le other least = false) ∧
      ∀ other ∈ after, le least other = true := by
  induction items with
  | nil => simp at head
  | cons first items inductionHypothesis =>
      obtain ⟨front, back, whole, shorter, less⟩ := List.mergeSort_cons trans total first items
      have sorted := List.pairwise_mergeSort trans total (first :: items)
      rw [whole] at head sorted
      cases front with
      | nil =>
          obtain rfl : first = least := by simpa using head
          refine ⟨[], items, rfl, by simp, fun other member => ?_⟩
          have among : other ∈ back := by
            rw [List.nil_append] at shorter
            rwa [← shorter, List.mem_mergeSort]
          exact (List.pairwise_cons.mp sorted).1 other among
      | cons other front =>
          obtain rfl : other = least := by simpa using head
          obtain ⟨before, after, rfl, greater, smaller⟩ := inductionHypothesis (by rw [shorter]; rfl)
          refine ⟨first :: before, after, rfl, ?_, smaller⟩
          intro another member
          rcases List.mem_cons.mp member with rfl | member
          · simpa using less other List.mem_cons_self
          · exact greater another member

end stable

def lossLe (left right : Outcome) : Bool :=
  left.loss ≤ right.loss

/-- The stable sort by loss. -/
def sortedByLoss (outcomes : List Outcome) : List Outcome :=
  outcomes.mergeSort lossLe

/-- The order of losses as rationals. It agrees with the order of finite losses and is total on all. -/
def noWorse (left right : Outcome) : Bool :=
  Binary32.value left.loss ≤ Binary32.value right.loss

theorem noWorse_trans (first second third : Outcome) (lower : noWorse first second) (upper : noWorse second third) :
    noWorse first third := by
  simp only [noWorse, decide_eq_true_eq] at *
  exact lower.trans upper

theorem noWorse_total (first second : Outcome) : noWorse first second || noWorse second first := by
  simp only [noWorse, Bool.or_eq_true, decide_eq_true_eq]
  exact le_total ..

section finite
variable {left right candidate : Outcome} {outcomes items : List Outcome}

theorem lossLe_eq (leftFinite : left.isEvaluated) (rightFinite : right.isEvaluated) :
    lossLe left right = noWorse left right := by
  rw [lossLe, noWorse, decide_eq_decide]
  exact Binary32.le_iff leftFinite rightFinite

theorem loss_lt_iff (leftFinite : left.isEvaluated) (rightFinite : right.isEvaluated) :
    left.loss < right.loss ↔ noWorse right left = false := by
  rw [Binary32.lt_iff leftFinite rightFinite, noWorse, decide_eq_false_iff_not, not_le]

theorem sortedByLoss_eq (finite : ∀ outcome ∈ outcomes, outcome.isEvaluated) :
    sortedByLoss outcomes = outcomes.mergeSort noWorse := by
  have agree : ∀ left ∈ outcomes, ∀ right ∈ outcomes, lossLe left right = noWorse (id left) (id right) :=
    fun left leftMember right rightMember => lossLe_eq (finite left leftMember) (finite right rightMember)
  have same := List.map_mergeSort agree
  rwa [List.map_id, List.map_id] at same

theorem insertSorted_eq (finite : ∀ outcome ∈ items, outcome.isEvaluated) (candidateFinite : candidate.isEvaluated) :
    Ranking.insertSorted candidate items = insertAfter noWorse candidate items := by
  change insertAfter lossLe candidate items = _
  exact insertAfter_congr fun outcome member => lossLe_eq (finite outcome member) candidateFinite

/-- A ranking that holds the best of some outcomes still does so after one more of them. -/
theorem Ranking.insert_eq (finite : ∀ outcome ∈ outcomes, outcome.isEvaluated)
    (candidateFinite : candidate.isEvaluated) {capacity : Nat} (positive : 0 < capacity) :
    (Ranking.insert ⟨(outcomes.mergeSort noWorse).take capacity, capacity⟩ candidate).2 =
      ⟨((outcomes ++ [candidate]).mergeSort noWorse).take capacity, capacity⟩ := by
  rw [mergeSort_append_singleton noWorse_trans noWorse_total]
  have sorted := List.pairwise_mergeSort noWorse_trans noWorse_total outcomes
  replace finite : ∀ outcome ∈ outcomes.mergeSort noWorse, outcome.isEvaluated := fun outcome member =>
    finite outcome (List.mem_mergeSort.mp member)
  generalize outcomes.mergeSort noWorse = items at sorted finite ⊢
  have kept : items.length < capacity → items.take capacity = items := fun few => List.take_of_length_le few.le
  unfold Ranking.insert
  rw [candidateFinite]
  by_cases full : capacity ≤ items.length
  · have inside : capacity - 1 < items.length := by omega
    have front : items.take capacity = items.take (capacity - 1) ++ [items[capacity - 1]] := by
      rw [← List.take_succ_eq_append_getElem inside, Nat.sub_add_cancel positive]
    have last : (items.take capacity).getLast? = some items[capacity - 1] := by rw [front, List.getLast?_concat]
    have worstFinite := finite _ (List.getElem_mem inside)
    simp only [Bool.not_true, Bool.false_eq_true, if_false, List.length_take_of_le full, if_true, last]
    split
    case isTrue better =>
      have dropped : (items.take capacity).dropLast = items.take (capacity - 1) := by rw [front, List.dropLast_concat]
      have pushed := take_insertAfter_of_greater inside ((loss_lt_iff candidateFinite worstFinite).mp better)
      rw [Nat.sub_add_cancel positive] at pushed
      rw [dropped, pushed, insertSorted_eq (fun outcome member => finite outcome (List.mem_of_mem_take member))
        candidateFinite]
    case isFalse worse =>
      have worstLe : noWorse items[capacity - 1] candidate = true := by
        rwa [loss_lt_iff candidateFinite worstFinite, Bool.not_eq_false] at worse
      rw [take_insertAfter_of_le full]
      intro outcome member
      rw [front, List.mem_append, List.mem_singleton] at member
      rcases member with earlier | rfl
      · obtain ⟨index, before, rfl⟩ := List.mem_take_iff_getElem.mp earlier
        exact noWorse_trans _ _ _ (List.pairwise_iff_getElem.mp sorted _ _ _ _ (by omega)) worstLe
      · exact worstLe
  · have few : items.length < capacity := Nat.lt_of_not_le full
    have length : (insertAfter noWorse candidate items).length ≤ capacity := by
      rw [insertAfter_perm.length_eq, List.length_cons]
      omega
    simp only [Bool.not_true, Bool.false_eq_true, if_false, kept few, few.ne, List.take_of_length_le length,
      insertSorted_eq finite candidateFinite]

/-- The head of a stable sort by loss is the earliest of the outcomes of least loss. -/
theorem earliest_of_sortedByLoss (finite : ∀ outcome ∈ outcomes, outcome.isEvaluated) {best : Outcome}
    {rest : List Outcome} (sorted : sortedByLoss outcomes = best :: rest) :
    ∃ earlier later, outcomes = earlier ++ best :: later ∧ (∀ outcome ∈ earlier, best.loss < outcome.loss) ∧
      ∀ outcome ∈ later, best.loss ≤ outcome.loss := by
  have head : (outcomes.mergeSort noWorse).head? = some best := by
    rw [← sortedByLoss_eq finite, sorted]
    rfl
  obtain ⟨earlier, later, rfl, greater, least⟩ := earliest_of_head?_mergeSort noWorse_trans noWorse_total head
  have bestFinite : best.isEvaluated := finite best (by simp)
  refine ⟨earlier, later, rfl, fun outcome member => ?_, fun outcome member => ?_⟩
  · have outcomeFinite := finite outcome (List.mem_append_left _ member)
    exact (loss_lt_iff bestFinite outcomeFinite).mpr (greater outcome member)
  · have outcomeFinite := finite outcome (by simp [member])
    have smaller := least outcome member
    rw [← lossLe_eq bestFinite outcomeFinite] at smaller
    exact of_decide_eq_true smaller

end finite

end EpisodicReplay.Tuning
