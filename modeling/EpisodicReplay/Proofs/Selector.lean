import EpisodicReplay.Proofs.Store.Directory
import EpisodicReplay.Proofs.Tag
import EpisodicReplay.Selector

/-!
What selectors pick. The picked ids are those of the matching records in their order; a tuning run takes the first of
them, or the latest episode where nothing matches.
-/

namespace EpisodicReplay.Selector
variable {selector : Selector} {records : List IndexRecord} {record : IndexRecord} {count : Nat} {id : UInt32}

/-- The selector asks for the record, which is one of the others. -/
def Matches (selector : Selector) (records : List IndexRecord) (record : IndexRecord) : Prop :=
  match selector with
  | .latest => ∀ other ∈ records, other.id ≤ record.id
  | .id value => record.id = value
  | .tag mask => record.tag.intersects mask = true
  | .all => True

instance (selector : Selector) (records : List IndexRecord) (record : IndexRecord) :
    Decidable (selector.Matches records record) :=
  match selector with
  | .latest => inferInstanceAs (Decidable (∀ other ∈ records, other.id ≤ record.id))
  | .id value => inferInstanceAs (Decidable (record.id = value))
  | .tag mask => inferInstanceAs (Decidable (record.tag.intersects mask = true))
  | .all => inferInstanceAs (Decidable True)

/-- The ids of the matching records are picked. -/
theorem mem_select_iff :
    id ∈ selector.select records ↔ ∃ record ∈ records, selector.Matches records record ∧ record.id = id := by
  cases selector with
  | latest =>
      rw [select, latestId?, Option.mem_toList, List.max?_eq_some_iff, List.forall_mem_map, List.mem_map]
      constructor
      · rintro ⟨⟨record, member, rfl⟩, greatest⟩
        exact ⟨record, member, greatest, rfl⟩
      · rintro ⟨record, member, greatest, rfl⟩
        exact ⟨⟨record, member, rfl⟩, greatest⟩
  | id value =>
      rw [select, Option.mem_toList, Option.map_eq_some_iff]
      constructor
      · rintro ⟨record, found, rfl⟩
        have asked := List.find?_some found
        exact ⟨record, List.mem_of_find?_eq_some found, beq_iff_eq.mp asked, rfl⟩
      · rintro ⟨record, member, rfl, rfl⟩
        have known : (records.find? (·.id == record.id)).isSome :=
          List.find?_isSome.mpr ⟨record, member, beq_self_eq_true record.id⟩
        obtain ⟨first, found⟩ := Option.isSome_iff_exists.mp known
        have asked := List.find?_some found
        exact ⟨first, found, beq_iff_eq.mp asked⟩
  | tag mask => simp [select, Matches, and_assoc]
  | all => simp [select, Matches]

theorem select_eq_nil_iff : selector.select records = [] ↔ ¬∃ record ∈ records, selector.Matches records record := by
  rw [List.eq_nil_iff_forall_not_mem]
  constructor
  · rintro nothing ⟨record, member, asked⟩
    exact nothing record.id (mem_select_iff.mpr ⟨record, member, asked, rfl⟩)
  · intro nothing id picked
    obtain ⟨record, member, asked, -⟩ := mem_select_iff.mp picked
    exact nothing ⟨record, member, asked⟩

section matching

/-- The selector asks for one episode. -/
def isSingle : Selector → Bool
  | .latest => true
  | .id _ => true
  | .tag _ => false
  | .all => false

/-- The ids of the matching records in their order, and only the first where one episode is asked for. -/
def matching (selector : Selector) (records : List IndexRecord) : List UInt32 :=
  let ids := (records.filter fun record => selector.Matches records record).map IndexRecord.id
  if selector.isSingle then ids.take 1 else ids

theorem take_one_filter (keep : IndexRecord → Bool) (records : List IndexRecord) :
    ((records.filter keep).map IndexRecord.id).take 1 = ((records.find? keep).map IndexRecord.id).toList := by
  rw [List.take_one, List.head?_map, List.head?_filter]

/-- The first record with the greatest id has the latest id. -/
theorem latestId?_eq (records : List IndexRecord) :
    latestId? records = (records.find? fun record => latest.Matches records record).map IndexRecord.id := by
  cases greatest : latestId? records with
  | none =>
      rw [latestId?, List.max?_eq_none_iff, List.map_eq_nil_iff] at greatest
      rw [greatest]
      rfl
  | some id =>
      obtain ⟨among, above⟩ := List.max?_eq_some_iff.mp greatest
      obtain ⟨record, member, rfl⟩ := List.mem_map.mp among
      have asked : latest.Matches records record := List.forall_mem_map.mp above
      have known : (records.find? fun record => latest.Matches records record).isSome :=
        List.find?_isSome.mpr ⟨record, member, decide_eq_true asked⟩
      obtain ⟨first, found⟩ := Option.isSome_iff_exists.mp known
      have firstAsked : latest.Matches records first := by
        simpa using List.find?_some found
      rw [found, Option.map_some, UInt32.le_antisymm (firstAsked record member)
        (asked first (List.mem_of_find?_eq_some found))]

theorem select_eq_matching (selector : Selector) (records : List IndexRecord) :
    selector.select records = selector.matching records := by
  cases selector with
  | latest =>
      change (latestId? records).toList = List.take 1 _
      rw [take_one_filter, latestId?_eq]
  | id value =>
      change ((records.find? (·.id == value)).map IndexRecord.id).toList = List.take 1 _
      rw [take_one_filter]
      rfl
  | tag mask =>
      exact congrArg (List.map IndexRecord.id) (List.filter_congr fun record _ => Bool.eq_iff_iff.mpr
        (decide_eq_true_iff (p := (tag mask).Matches records record)).symm)
  | all =>
      exact congrArg (List.map IndexRecord.id) (List.filter_eq_self.mpr fun record _ => decide_eq_true trivial).symm

theorem matching_sublist (selector : Selector) (records : List IndexRecord) :
    (selector.matching records).Sublist (records.map IndexRecord.id) := by
  have kept : ((records.filter fun record => selector.Matches records record).map IndexRecord.id).Sublist
      (records.map IndexRecord.id) := List.filter_sublist.map _
  unfold matching
  dsimp only
  split
  · exact (List.take_sublist ..).trans kept
  · exact kept

theorem latest_matching (member : record ∈ records) (greatest : ∀ other ∈ records, other.id ≤ record.id) :
    latest.matching records = [record.id] := by
  have found : latestId? records = some record.id :=
    List.max?_eq_some_iff.mpr ⟨List.mem_map_of_mem member, List.forall_mem_map.mpr greatest⟩
  rw [← select_eq_matching, select, found]
  rfl

theorem latest_matching_eq_nil_iff : latest.matching records = [] ↔ records = [] := by
  rw [← select_eq_matching, select, Option.toList_eq_nil_iff, latestId?, List.max?_eq_none_iff, List.map_eq_nil_iff]

end matching

section tuning

/-- The first ids up to a count, where zero means all. -/
def capped (count : Nat) (ids : List UInt32) : List UInt32 :=
  if count = 0 then ids else ids.take count

theorem capped_eq_nil_iff {ids : List UInt32} : capped count ids = [] ↔ ids = [] := by
  unfold capped
  split
  case isTrue => rfl
  case isFalse some => simp [some]

theorem capped_sublist (count : Nat) (ids : List UInt32) : (capped count ids).Sublist ids := by
  unfold capped
  split
  · exact List.Sublist.refl ids
  · exact List.take_sublist ..

/-- The ids that tuning takes its first ones from. -/
def candidates (selector : Selector) (records : List IndexRecord) : List UInt32 :=
  if selector.matching records = [] then latest.matching records else selector.matching records

theorem selectForTuning_eq (selector : Selector) (records : List IndexRecord) (count : Nat) :
    selector.selectForTuning records count = capped count (selector.candidates records) := by
  simp only [selectForTuning, select_eq_matching, List.isEmpty_iff]
  rw [show (latestId? records).toList = latest.matching records from select_eq_matching latest records]
  rfl

theorem candidates_eq_nil_iff : selector.candidates records = [] ↔ records = [] := by
  unfold candidates
  split
  case isTrue => exact latest_matching_eq_nil_iff
  case isFalse some =>
    refine iff_of_false some ?_
    rintro rfl
    exact some (List.sublist_nil.mp (selector.matching_sublist []))

theorem candidates_sublist (selector : Selector) (records : List IndexRecord) :
    (selector.candidates records).Sublist (records.map IndexRecord.id) := by
  unfold candidates
  split
  · exact latest.matching_sublist records
  · exact selector.matching_sublist records

theorem selectForTuning_sublist (selector : Selector) (records : List IndexRecord) (count : Nat) :
    (selector.selectForTuning records count).Sublist (records.map IndexRecord.id) := by
  rw [selectForTuning_eq]
  exact (capped_sublist ..).trans (selector.candidates_sublist records)

/-- Only known episodes are picked. -/
theorem mem_of_selectForTuning (member : id ∈ selector.selectForTuning records count) :
    id ∈ records.map IndexRecord.id :=
  (selector.selectForTuning_sublist records count).mem member

/-- Tuning takes the first of the matching episodes in the order of the index, the latest one where nothing matches, and
nothing only from an empty index. With a higher count it goes on from there. -/
theorem selectForTuning_chooses (selector : Selector) (records : List IndexRecord) (count : Nat) :
    let chosen := selector.selectForTuning records
    (chosen count = [] ↔ records = []) ∧
    (chosen count).Sublist (records.map IndexRecord.id) ∧
    selector.select records = selector.matching records ∧
    ((∃ record ∈ records, selector.Matches records record) → chosen count = capped count (selector.matching records)) ∧
    ((¬∃ record ∈ records, selector.Matches records record) →
      ∀ record ∈ records, (∀ other ∈ records, other.id ≤ record.id) → chosen count = [record.id]) ∧
    (∀ mask record, (tag mask).Matches records record ↔ ∃ bit, record.tag.HasBit bit ∧ mask.HasBit bit) ∧
    ∀ more, 1 ≤ count → count ≤ more → chosen count <+: chosen more := by
  intro chosen
  have taken (count : Nat) : chosen count = capped count (selector.candidates records) :=
    selector.selectForTuning_eq records count
  have unmatched : selector.matching records = [] ↔ ¬∃ record ∈ records, selector.Matches records record := by
    rw [← select_eq_matching, select_eq_nil_iff]
  refine ⟨?_, selector.selectForTuning_sublist records count, select_eq_matching selector records, fun asked => ?_,
    fun nothing record member greatest => ?_, fun mask record => Tag.intersects_iff, fun more positive fewer => ?_⟩
  · rw [taken, capped_eq_nil_iff, candidates_eq_nil_iff]
  · rw [taken, candidates, if_neg fun none => unmatched.mp none asked]
  · rw [taken, candidates, if_pos (unmatched.mpr nothing), latest_matching member greatest, capped]
    split
    · rfl
    · exact List.take_of_length_le (by simp; omega)
  · rw [taken, taken, capped, capped, if_neg (by omega), if_neg (by omega)]
    exact List.take_prefix_take_left fewer

/-- An index out of order that shows an episode twice. -/
def shuffledIndex : List IndexRecord :=
  [⟨4, 1, "SPIKE", .spike, 0, 0⟩, ⟨9, 1, "ALIGN", .align, 0, 0⟩, ⟨7, 1, "SPIKE|LOW_HARM", .spike ||| .lowHarmony, 0, 0⟩,
    ⟨9, 1, "SPIKE", .spike, 0, 0⟩]

theorem selectForTuning_chooses_shuffledIndex :
    (tag .spike).selectForTuning shuffledIndex 2 = [4, 7] ∧
    (tag .spike).selectForTuning shuffledIndex 2 <+: (tag .spike).selectForTuning shuffledIndex 3 ∧
    (Selector.id 9).selectForTuning shuffledIndex 3 = [9] ∧ (Selector.id 5).selectForTuning shuffledIndex 3 = [9] := by
  obtain ⟨-, -, -, spikes, -, -, longer⟩ := (tag .spike).selectForTuning_chooses shuffledIndex 2
  obtain ⟨-, -, -, nine, -⟩ := (Selector.id 9).selectForTuning_chooses shuffledIndex 3
  obtain ⟨-, -, -, -, five, -⟩ := (Selector.id 5).selectForTuning_chooses shuffledIndex 3
  refine ⟨?_, longer 3 (by decide) (by decide), ?_, ?_⟩
  · rw [spikes (by decide)]
    decide
  · rw [nine (by decide)]
    decide
  · exact five (by decide) ⟨9, 1, "ALIGN", .align, 0, 0⟩ (by decide) (by decide)

end tuning

end EpisodicReplay.Selector
