import EpisodicReplay.Json.Fields
import EpisodicReplay.Proofs.Json.Writer

/-! The fields of written objects. -/

namespace EpisodicReplay.Json
variable {members : List Member}

def Member.field (member : Member) : String × Value :=
  (member.name, member.value)

/-- The names of written members are read back. -/
theorem mapM_text?_read (members : List Member) :
    (members.map Member.read).mapM (fun (key, value) => (text? key).map fun key => (String.ofList key, value)) =
      some (members.map Member.field) := by
  induction members with
  | nil => rfl
  | cons member others inductionHypothesis =>
      have name : (text? member.read.1).map (fun key => (String.ofList key, member.read.2)) = some member.field := by
        rw [Member.read, text?_map_piece, Option.map_some, String.ofList_toList]
        rfl
      rw [List.map_cons, List.mapM_cons, inductionHypothesis]
      change (((text? member.read.1).map fun key => (String.ofList key, member.read.2)).bind _) = _
      rw [name]
      rfl

theorem fields?_object (members : List Member) (names : List String) :
    Value.fields? names (.object (members.map Member.read)) =
      if names.all fun name =>
          ((members.map Member.field).filter fun field => names.contains field.1).countP (·.1 == name) ≤ 1
      then some ((members.map Member.field).filter fun field => names.contains field.1) else none := by
  rw [Value.fields?, mapM_text?_read]
  rfl

theorem value?_digits {number : Nat} (small : number < UInt64.size) :
    Number.value? ⟨false, Decimal.digits number, [], none⟩ = some (.natural (.ofNat number)) := by
  simp [Number.value?, Number.isInteger, Decimal.digitsValue?_digits, small]

theorem natBelow?_digits {number bound : Nat} (below : number < bound) (small : number < UInt64.size) :
    Value.natBelow? bound (.number ⟨false, Decimal.digits number, [], none⟩) = some number := by
  have value := value?_digits small
  have exact : (UInt64.ofNat number).toNat = number := UInt64.toNat_ofNat_of_lt' small
  simp only [Value.natBelow?, value, exact]
  rw [if_pos below]

theorem uint32?_digits (number : UInt32) :
    Value.uint32? (.number ⟨false, Decimal.digits number.toNat, [], none⟩) = some number := by
  have below := number.toNat_lt
  rw [Value.uint32?, natBelow?_digits below (Nat.lt_trans below (by decide))]
  exact congrArg some UInt32.ofNat_toNat

/-- Whether a number is read back from its own text. -/
def ReadsBack (value : Float32) : Prop :=
  (parse? (writeFloat32 value)).bind Value.float32? = some value

instance (value : Float32) : Decidable (ReadsBack value) :=
  inferInstanceAs (Decidable (_ = _))

theorem ReadsBack.float32? {value : Float32} {spelled : Value} (readsBack : ReadsBack value)
    (spells : Spells (writeFloat32 value) spelled) : spelled.float32? = some value := by
  rwa [ReadsBack, spells.parse?, Option.bind_some] at readsBack

section subset
variable {names fewer : List String} {name : String} {fields : List (String × Value)} {keep : String → Bool}
  {pieces : List (List Piece × Value)}

theorem lookup_filter (kept : keep name = true) (fields : List (String × Value)) :
    (fields.filter fun field => keep field.1).lookup name = fields.lookup name := by
  induction fields with
  | nil => rfl
  | cons field others inductionHypothesis =>
      obtain ⟨key, value⟩ := field
      rw [List.filter_cons, List.lookup_cons]
      cases same : name == key with
      | true => rw [← eq_of_beq same, kept, if_pos rfl, List.lookup_cons, beq_self_eq_true]
      | false =>
          split
          · rw [List.lookup_cons, same, inductionHypothesis]
          · exact inductionHypothesis

theorem countP_filter_name (kept : keep name = true) (fields : List (String × Value)) :
    (fields.filter fun field => keep field.1).countP (·.1 == name) = fields.countP (·.1 == name) := by
  rw [List.countP_filter]
  refine List.countP_congr fun field _ => ?_
  rw [Bool.and_eq_true, and_iff_left_iff_imp]
  intro same
  rw [eq_of_beq same, kept]

/-- Whoever asks an object for fewer members is answered too, and finds the same in them. -/
theorem fields?_object_of_subset (subset : fewer ⊆ names) (read : Value.fields? names (.object pieces) = some fields) :
    ∃ others, Value.fields? fewer (.object pieces) = some others ∧
      ∀ name ∈ fewer, others.lookup name = fields.lookup name := by
  obtain ⟨named, keys, read⟩ := Option.bind_eq_some_iff.mp read
  simp only [Option.ite_none_right_eq_some, Option.some.injEq, List.all_eq_true, decide_eq_true_eq] at read
  obtain ⟨single, rfl⟩ := read
  refine ⟨named.filter fun member => fewer.contains member.1, ?_, fun name member => ?_⟩
  · refine Option.bind_eq_some_iff.mpr ⟨named, keys, if_pos (List.all_eq_true.mpr fun name member => ?_)⟩
    have once := single name (subset member)
    rw [countP_filter_name (List.contains_iff_mem.mpr (subset member))] at once
    rw [countP_filter_name (List.contains_iff_mem.mpr member)]
    exact decide_eq_true once
  · rw [lookup_filter (List.contains_iff_mem.mpr member), lookup_filter (List.contains_iff_mem.mpr (subset member))]

end subset

end EpisodicReplay.Json
