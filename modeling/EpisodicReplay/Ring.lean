/-! A circular buffer of fixed capacity: a slot for each item that fits, and a head that goes round them. -/

namespace EpisodicReplay

/-- The slot at a place that is counted on beyond the last slot. -/
def Ring.slotAt {α : Type} {capacity : Nat} (slots : Vector (Option α) capacity) (capacity_pos : 0 < capacity)
    (place : Nat) : Option α :=
  have := Nat.mod_lt place capacity_pos
  slots[place % capacity]

/-- The head is the slot that the next item goes into. As many slots behind it are taken as the size tells. -/
structure Ring (α : Type) (capacity : Nat) where
  slots : Vector (Option α) capacity
  head : Nat
  size : Nat
  head_lt : head < capacity
  size_le : size ≤ capacity
  taken : ∀ offset < size, (Ring.slotAt slots (Nat.zero_lt_of_lt head_lt) (head + capacity - 1 - offset)).isSome

/-- Why there is no ring. -/
inductive RingFault where
  | zeroCapacity
deriving DecidableEq, Repr

def RingFault.message : RingFault → String
  | .zeroCapacity => "RingBuffer capacity must be non-zero"

namespace Ring
variable {α : Type} {capacity : Nat}

theorem capacity_pos (ring : Ring α capacity) : 0 < capacity :=
  Nat.zero_lt_of_lt ring.head_lt

def empty (capacity_pos : 0 < capacity) : Ring α capacity where
  slots := .replicate capacity none
  head := 0
  size := 0
  head_lt := capacity_pos
  size_le := Nat.zero_le capacity
  taken := fun _ inside => absurd inside (Nat.not_lt_zero _)

def ofCapacity (α : Type) (capacity : Nat) : Except RingFault (Ring α capacity) :=
  if capacity_pos : 0 < capacity then .ok (empty capacity_pos) else .error .zeroCapacity

def isEmpty (ring : Ring α capacity) : Bool :=
  ring.size == 0

def isFull (ring : Ring α capacity) : Bool :=
  ring.size == capacity

section slots
variable (slots : Vector (Option α) capacity) {head offset : Nat}

/-- A place that is less than twice round wraps at most once. -/
theorem mod_eq_of_lt_twice {place : Nat} (inside : place < 2 * capacity) :
    place % capacity = if place < capacity then place else place - capacity := by
  split
  case isTrue before => exact Nat.mod_eq_of_lt before
  case isFalse beyond => rw [Nat.mod_eq_sub_mod (by omega), Nat.mod_eq_of_lt (by omega)]

/-- The slot just behind the moved head is the one that was filled. -/
theorem slotAt_set_newest (head_lt : head < capacity) (capacity_pos : 0 < capacity) (filled : Option α) :
    slotAt (slots.set head filled) capacity_pos ((head + 1) % capacity + capacity - 1) = filled := by
  have place : ((head + 1) % capacity + capacity - 1) % capacity = head := by
    rw [mod_eq_of_lt_twice (show head + 1 < 2 * capacity by omega)]
    split <;> rw [mod_eq_of_lt_twice (by omega)] <;> split <;> omega
  simp only [slotAt, place, Vector.getElem_set_self]

/-- The others are one place further behind it, and stay. -/
theorem slotAt_set_older (head_lt : head < capacity) (capacity_pos : 0 < capacity) (filled : Option α)
    (inside : offset + 1 < capacity) :
    slotAt (slots.set head filled) capacity_pos ((head + 1) % capacity + capacity - 1 - (offset + 1)) =
      slotAt slots capacity_pos (head + capacity - 1 - offset) := by
  have place : ((head + 1) % capacity + capacity - 1 - (offset + 1)) % capacity =
      (head + capacity - 1 - offset) % capacity := by
    rw [mod_eq_of_lt_twice (show head + 1 < 2 * capacity by omega)]
    split <;> rw [mod_eq_of_lt_twice (by omega), mod_eq_of_lt_twice (by omega)] <;> split <;> split <;> omega
  have apart : head ≠ (head + capacity - 1 - offset) % capacity := by
    rw [mod_eq_of_lt_twice (by omega)]
    split <;> omega
  simp only [slotAt, place]
  exact Vector.getElem_set_ne _ _ apart

/-- Filling the head leaves no gap behind the moved head. -/
theorem taken_set {size : Nat} {capacity_pos : 0 < capacity} (head_lt : head < capacity) (item : α)
    (taken : ∀ offset < size, (slotAt slots capacity_pos (head + capacity - 1 - offset)).isSome) :
    ∀ offset < min (size + 1) capacity,
      (slotAt (slots.set head (some item)) capacity_pos ((head + 1) % capacity + capacity - 1 - offset)).isSome := by
  intro offset inside
  cases offset with
  | zero => rw [Nat.sub_zero, slotAt_set_newest slots head_lt, Option.isSome_some]
  | succ offset =>
      rw [slotAt_set_older slots head_lt capacity_pos _ (by omega)]
      exact taken offset (by omega)

end slots

/-- Puts an item into the slot at the head. A full ring gives up its oldest item, which was there. -/
def push (ring : Ring α capacity) (item : α) : Option α × Ring α capacity :=
  have head_lt := ring.head_lt
  let evicted := ring.slots[ring.head]
  let slots := ring.slots.set ring.head (some item)
  let head := (ring.head + 1) % capacity
  have taken := taken_set ring.slots head_lt item ring.taken
  have next_lt := Nat.mod_lt (ring.head + 1) ring.capacity_pos
  if room : ring.size < capacity then
    (none, ⟨slots, head, ring.size + 1, next_lt, room, by rwa [Nat.min_eq_left room] at taken⟩)
  else
    (evicted, ⟨slots, head, ring.size, next_lt, ring.size_le, fun offset inside =>
      taken offset (Nat.lt_min.mpr ⟨Nat.lt_succ_of_lt inside, Nat.lt_of_lt_of_le inside ring.size_le⟩)⟩)

/-- The item at a position counted back from the newest. -/
def recent? (ring : Ring α capacity) (offset : Nat) : Option α :=
  if offset < ring.size then slotAt ring.slots ring.capacity_pos (ring.head + capacity - 1 - offset) else none

/-- The item at a position counted from the oldest. -/
def get? (ring : Ring α capacity) (index : Nat) : Option α :=
  if index < ring.size then
    let start := (ring.head + capacity - ring.size) % capacity
    slotAt ring.slots ring.capacity_pos (start + index)
  else none

def newest? (ring : Ring α capacity) : Option α :=
  ring.recent? 0

/-- Empties every slot. -/
def clear (ring : Ring α capacity) : Ring α capacity where
  slots := ring.slots.map fun _ => none
  head := 0
  size := 0
  head_lt := ring.capacity_pos
  size_le := Nat.zero_le capacity
  taken := fun _ inside => absurd inside (Nat.not_lt_zero _)

/-- A walk from both ends: the positions from `front` up to `back` are still to come. -/
structure Walk where
  front : Nat
  back : Nat

def walk (ring : Ring α capacity) : Walk :=
  ⟨0, ring.size⟩

/-- The oldest item still to come. -/
def Walk.next (ring : Ring α capacity) (walk : Walk) : Option α × Walk :=
  if walk.front < walk.back then
    let rest : Walk := { walk with front := walk.front + 1 }
    match ring.get? walk.front with
    | some item => (some item, rest)
    | none => next ring rest
  else (none, walk)
termination_by walk.back - walk.front

/-- The newest item still to come. -/
def Walk.nextBack (ring : Ring α capacity) (walk : Walk) : Option α × Walk :=
  if walk.front < walk.back then
    let rest : Walk := { walk with back := walk.back - 1 }
    match ring.get? (walk.back - 1) with
    | some item => (some item, rest)
    | none => nextBack ring rest
  else (none, walk)
termination_by walk.back - walk.front

/-- The items that a walk from the front finds, oldest first. -/
def toList (ring : Ring α capacity) : List α :=
  (List.range ring.size).filterMap ring.get?

end Ring

end EpisodicReplay
