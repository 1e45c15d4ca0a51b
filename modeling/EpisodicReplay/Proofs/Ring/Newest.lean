import EpisodicReplay.Proofs.Ring

/-!
Whatever was pushed and cleared, a ring shows the newest items since it was last cleared: at each position, to a
push that needs room, and to a walk from both ends.
-/

namespace EpisodicReplay.Ring
variable {α : Type} {capacity : Nat} {ring : Ring α capacity} {items : List α}

theorem isFull_iff (ring : Ring α capacity) : ring.isFull = true ↔ ring.toList.length = capacity := by
  rw [isFull, beq_iff_eq, toList_length]

section walk
variable {walk : Walk}

/-- The end of a walk that is asked for an item. -/
inductive Side where
  | front
  | back
deriving DecidableEq

def Walk.ask (ring : Ring α capacity) (walk : Walk) : Side → Option α × Walk
  | .front => walk.next ring
  | .back => walk.nextBack ring

/-- What a walk answers, side by side. -/
def Walk.answers (ring : Ring α capacity) (walk : Walk) : List Side → List (Option α)
  | [] => []
  | side :: sides =>
    let (answer, next) := walk.ask ring side
    answer :: next.answers ring sides

/-- The items that a list loses from its two ends, side by side. -/
def drained (items : List α) : List Side → List (Option α)
  | [] => []
  | .front :: sides => items.head? :: drained items.tail sides
  | .back :: sides => items.getLast? :: drained items.dropLast sides

/-- The items among some answers that came from one side. -/
def yielded (chosen : Side) (sides : List Side) (answers : List (Option α)) : List α :=
  (sides.zip answers).filterMap fun (side, answer) => if side = chosen then answer else none

/-- The items that are still to come. -/
def Walk.ahead (ring : Ring α capacity) (walk : Walk) : List α :=
  (ring.toList.take walk.back).drop walk.front

theorem ahead_walk (ring : Ring α capacity) : ring.walk.ahead ring = ring.toList := by
  rw [Ring.walk, Walk.ahead, List.drop_zero, ← toList_length, List.take_length]

theorem length_ahead (inside : walk.back ≤ ring.size) : (walk.ahead ring).length = walk.back - walk.front := by
  rw [Walk.ahead, List.length_drop, List.length_take, toList_length, Nat.min_eq_left inside]

theorem ahead_getElem? (walk : Walk) (ring : Ring α capacity) (index : Nat) (before : walk.front + index < walk.back) :
    (walk.ahead ring)[index]? = ring.get? (walk.front + index) := by
  rw [Walk.ahead, List.getElem?_drop, List.getElem?_take_of_lt before, get?_eq]

/-- No position of a walk is without an item, so none is skipped. -/
theorem next_of_lt (inside : walk.back ≤ ring.size) (before : walk.front < walk.back) :
    walk.next ring = (ring.get? walk.front, { walk with front := walk.front + 1 }) := by
  obtain ⟨item, found⟩ := Option.isSome_iff_exists.mp (get?_isSome (Nat.lt_of_lt_of_le before inside))
  rw [Walk.next, if_pos before, found]

theorem nextBack_of_lt (inside : walk.back ≤ ring.size) (before : walk.front < walk.back) :
    walk.nextBack ring = (ring.get? (walk.back - 1), { walk with back := walk.back - 1 }) := by
  have last : walk.back - 1 < ring.size := by omega
  obtain ⟨item, found⟩ := Option.isSome_iff_exists.mp (get?_isSome last)
  rw [Walk.nextBack, if_pos before, found]

theorem ahead_of_le (past : walk.back ≤ walk.front) : walk.ahead ring = [] :=
  List.drop_eq_nil_of_le (Nat.le_trans (List.length_take_le walk.back ring.toList) past)

/-- An asked walk gives up the item at the end that is asked. -/
theorem ask_front (inside : walk.back ≤ ring.size) : (walk.ask ring .front).1 = (walk.ahead ring).head? ∧
    (walk.ask ring .front).2.ahead ring = (walk.ahead ring).tail ∧ (walk.ask ring .front).2.back ≤ ring.size := by
  rcases Nat.lt_or_ge walk.front walk.back with before | past
  · rw [Walk.ask, next_of_lt inside before]
    refine ⟨?_, ?_, inside⟩
    · rw [List.head?_eq_getElem?, ahead_getElem? walk ring 0 before]
      rfl
    · rw [Walk.ahead, Walk.ahead, List.tail_drop]
  · rw [Walk.ask, Walk.next, if_neg (Nat.not_lt.mpr past), ahead_of_le past]
    exact ⟨rfl, rfl, inside⟩

theorem ask_back (inside : walk.back ≤ ring.size) : (walk.ask ring .back).1 = (walk.ahead ring).getLast? ∧
    (walk.ask ring .back).2.ahead ring = (walk.ahead ring).dropLast ∧ (walk.ask ring .back).2.back ≤ ring.size := by
  have length := length_ahead inside
  rcases Nat.lt_or_ge walk.front walk.back with before | past
  · have last : walk.front + (walk.back - walk.front - 1) = walk.back - 1 := by omega
    rw [Walk.ask, nextBack_of_lt inside before]
    refine ⟨?_, ?_, Nat.le_trans (Nat.sub_le walk.back 1) inside⟩
    · rw [List.getLast?_eq_getElem?, length, ahead_getElem? walk ring _ (by omega), last]
    · rw [List.dropLast_eq_take, length, Walk.ahead, Walk.ahead, List.take_drop, List.take_take, last,
        Nat.min_eq_left (Nat.sub_le walk.back 1)]
  · rw [Walk.ask, Walk.nextBack, if_neg (Nat.not_lt.mpr past), ahead_of_le past]
    exact ⟨rfl, rfl, inside⟩

theorem answers_eq (inside : walk.back ≤ ring.size) (sides : List Side) :
    walk.answers ring sides = drained (walk.ahead ring) sides := by
  induction sides generalizing walk with
  | nil => rfl
  | cons side sides inductionHypothesis =>
      cases side with
      | front =>
          obtain ⟨answer, rest, still⟩ := ask_front inside
          rw [drained, ← answer, ← rest, ← inductionHypothesis still]
          rfl
      | back =>
          obtain ⟨answer, rest, still⟩ := ask_back inside
          rw [drained, ← answer, ← rest, ← inductionHypothesis still]
          rfl

/-- A walk that is only asked at one end drains the items in order. -/
theorem drained_front (items : List α) : drained items (List.replicate items.length .front) = items.map some := by
  induction items with
  | nil => rfl
  | cons first items inductionHypothesis =>
      rw [List.length_cons, List.replicate_succ, drained, List.head?_cons, List.tail_cons, inductionHypothesis,
        List.map_cons]

theorem drained_back (items : List α) :
    drained items (List.replicate items.length .back) = items.reverse.map some := by
  induction items using List.reverseRecOn with
  | nil => rfl
  | append_singleton items last inductionHypothesis =>
      rw [List.length_append, List.length_singleton, List.replicate_succ, drained, List.getLast?_concat,
        List.dropLast_concat, inductionHypothesis, List.reverse_concat, List.map_cons]

/-- A list that loses items from its ends falls into those from the front, a rest and those from the back. -/
theorem exists_rest_of_drained (items : List α) (sides : List Side) : ∃ rest,
    items = yielded .front sides (drained items sides) ++ rest ++ (yielded .back sides (drained items sides)).reverse ∧
      rest.length = items.length - sides.length := by
  induction sides generalizing items with
  | nil => exact ⟨items, by simp [yielded], rfl⟩
  | cons side sides inductionHypothesis =>
      cases side with
      | front =>
          cases items with
          | nil =>
              obtain ⟨rest, parts, length⟩ := inductionHypothesis []
              exact ⟨rest, by simpa [drained, yielded] using parts, by simpa using length⟩
          | cons first items =>
              obtain ⟨rest, parts, length⟩ := inductionHypothesis items
              refine ⟨rest, ?_, by rw [length, List.length_cons, List.length_cons, Nat.add_sub_add_right]⟩
              conv_lhs => rw [parts]
              simp [drained, yielded]
      | back =>
          rcases List.eq_nil_or_concat items with rfl | ⟨items, last, rfl⟩
          · obtain ⟨rest, parts, length⟩ := inductionHypothesis []
            exact ⟨rest, by simpa [drained, yielded] using parts, by simpa using length⟩
          · obtain ⟨rest, parts, length⟩ := inductionHypothesis items
            refine ⟨rest, ?_, by simp [length]⟩
            conv_lhs => rw [List.concat_eq_append, parts]
            simp [drained, yielded]

end walk

/-- What is done with a ring. -/
inductive Act (α : Type) where
  | push (item : α)
  | clear

def act (ring : Ring α capacity) : Act α → Ring α capacity
  | .push item => (ring.push item).2
  | .clear => ring.clear

/-- A ring that began empty, after some acts. -/
def after (capacity_pos : 0 < capacity) (acts : List (Act α)) : Ring α capacity :=
  acts.foldl act (empty capacity_pos)

/-- The items that were pushed since the last clear, oldest first. -/
def pushed (acts : List (Act α)) : List α :=
  acts.foldl (fun items act =>
    match act with
    | .push item => items ++ [item]
    | .clear => []) []

theorem toList_after (capacity_pos : 0 < capacity) (acts : List (Act α)) :
    (after capacity_pos acts).toList = (pushed acts).rtake capacity := by
  induction acts using List.reverseRecOn with
  | nil => rw [after, pushed, List.foldl_nil, List.foldl_nil, toList_empty, List.rtake_nil]
  | append_singleton acts act inductionHypothesis =>
      rw [after, pushed, List.foldl_concat, List.foldl_concat]
      cases act with
      | push item => exact push_toList_rtake inductionHypothesis item
      | clear =>
          rw [act, toList_clear]
          exact (List.rtake_nil capacity).symm

/-- All that a ring answers is what a list of at most its capacity would answer. -/
structure Shows (ring : Ring α capacity) (items : List α) : Prop where
  size : ring.size = items.length
  isEmpty : ring.isEmpty = items.isEmpty
  isFull : ring.isFull = true ↔ items.length = capacity
  get? : ∀ index, ring.get? index = items[index]?
  recent? : ∀ offset,
    ring.recent? offset = if offset < items.length then items[items.length - 1 - offset]? else none
  push : ∀ item, (ring.push item).1 = if items.length = capacity then items.head? else none
  toList : ring.toList = items
  answers : ∀ sides, ring.walk.answers ring sides = drained items sides
  forward : ring.walk.answers ring (List.replicate items.length .front) = items.map some
  backward : ring.walk.answers ring (List.replicate items.length .back) = items.reverse.map some
  once : ∀ sides, let answers := ring.walk.answers ring sides
    ∃ rest, items = yielded .front sides answers ++ rest ++ (yielded .back sides answers).reverse ∧
      rest.length = items.length - sides.length

/-- Whatever lies in the other slots, the ways into a ring agree on its items. -/
theorem shows_toList (ring : Ring α capacity) : ring.Shows ring.toList := by
  have walked (sides : List Side) : ring.walk.answers ring sides = drained ring.toList sides := by
    rw [answers_eq (Nat.le_refl ring.size), ahead_walk]
  exact {
    size := ring.toList_length.symm
    isEmpty := ring.isEmpty_eq
    isFull := ring.isFull_iff
    get? := ring.get?_eq
    recent? := fun offset => by
      rw [recent?_eq]
      split
      case isTrue inside => rw [List.getElem?_reverse inside]
      case isFalse outside => exact List.getElem?_eq_none (by rw [List.length_reverse]; omega)
    push := ring.push_evicted
    toList := rfl
    answers := walked
    forward := by rw [walked, drained_front]
    backward := by rw [walked, drained_back]
    once := fun sides => by
      rw [walked]
      exact exists_rest_of_drained ring.toList sides }

/-- A ring shows the newest items since the last clear, as many as fit. -/
theorem shows_newest (capacity_pos : 0 < capacity) (acts : List (Act α)) :
    (after capacity_pos acts).Shows ((pushed acts).rtake capacity) ∧
      ((pushed acts).rtake capacity).length = min capacity (pushed acts).length := by
  refine ⟨toList_after capacity_pos acts ▸ shows_toList _, ?_⟩
  rw [List.rtake, List.length_drop]
  omega

/-- A ring that was cleared and wrapped round since, walked from both ends beyond its items. -/
theorem shows_newest_wrapped :
    let ring := after (show 0 < 3 by decide) [.push 'a', .push 'b', .clear, .push 'c', .push 'd', .push 'e', .push 'f']
    ring.Shows ['d', 'e', 'f'] ∧ (ring.push 'g').1 = some 'd' ∧
      ring.walk.answers ring [.back, .front, .front, .back] = [some 'f', some 'd', some 'e', none] := by
  intro ring
  have shows : ring.Shows ['d', 'e', 'f'] :=
    (shows_newest (by decide) [.push 'a', .push 'b', .clear, .push 'c', .push 'd', .push 'e', .push 'f']).1
  exact ⟨shows, shows.push 'g', shows.answers [.back, .front, .front, .back]⟩

end EpisodicReplay.Ring
