import EpisodicReplay.Proofs.Json.Fields

/-! Records are read back from the objects that they are written as. -/

namespace EpisodicReplay.Json
variable {α : Type} {fields : List (String × Value)} {name : String} {read? : Value → Option α} {default value : α}
  {bound number : Nat}

/-- Text of a value that is read from it. -/
def Reads (text : List Char) (read? : Value → Option α) (value : α) : Prop :=
  ∃ spelled, Spells text spelled ∧ read? spelled = some value

theorem Reads.parse? {text : List Char} (reads : Reads text read? value) :
    (Json.parse? text).bind read? = some value := by
  obtain ⟨spelled, spells, read⟩ := reads
  rw [spells.parse?, Option.bind_some, read]

theorem reads_writeNat (below : number < bound) (small : number < UInt64.size) :
    Reads (writeNat number) (Value.natBelow? bound) number :=
  ⟨_, spells_writeNat number, natBelow?_digits below small⟩

theorem reads_writeNat_uint64 (number : UInt64) : Reads (writeNat number.toNat) Value.uint64? number := by
  obtain ⟨spelled, spells, read⟩ := reads_writeNat number.toNat_lt number.toNat_lt
  refine ⟨spelled, spells, ?_⟩
  rw [Value.uint64?, read]
  exact congrArg some UInt64.ofNat_toNat

theorem ReadsBack.reads {number : Float32} (back : ReadsBack number) :
    Reads (writeFloat32 number) Value.float32? number := by
  obtain ⟨spelled, spells⟩ := spells_writeFloat32 number
  exact ⟨spelled, spells, back.float32? spells⟩

/-- An object of distinct members shows them all. -/
theorem fields?_members {members : List Member} {names : List String} (same : members.map Member.name = names)
    (distinct : names.Nodup) :
    Value.fields? names (.object (members.map Member.read)) = some (members.map Member.field) := by
  subst same
  have kept : (members.map Member.field).filter (fun field => (members.map Member.name).contains field.1) =
      members.map Member.field := by
    rw [List.filter_eq_self]
    intro field member
    obtain ⟨member, among, rfl⟩ := List.mem_map.mp member
    exact List.contains_iff_mem.mpr (List.mem_map_of_mem among)
  have single (name : String) : (members.map Member.field).countP (·.1 == name) ≤ 1 := by
    have count := List.nodup_iff_count_le_one.mp distinct name
    rw [List.count, List.countP_map] at count
    rwa [List.countP_map]
  rw [fields?_object, kept, if_pos (List.all_eq_true.mpr fun name _ => decide_eq_true (single name))]

/-- A record is read from an object of all its fields. -/
theorem reads_writeObject (members : List Member) {names : List String} {build : List (String × Value) → Option α}
    (same : members.map Member.name = names) (distinct : names.Nodup) (nonempty : members ≠ [])
    (built : build (members.map Member.field) = some value) :
    Reads (writeObject (members.map Member.written)) (fun json => json.fields? names >>= build) value := by
  refine ⟨_, spells_writeObject nonempty, ?_⟩
  dsimp only
  rw [fields?_members same distinct]
  exact built

/-- What holds of the default and of all that is read holds of a field that may be missing. -/
theorem holds_of_optional? (property : α → Prop) (standard : property default)
    (reads : ∀ json result, read? json = some result → property result)
    (found : optional? fields name read? default = some value) : property value := by
  unfold optional? at found
  split at found
  · exact Option.some.inj found ▸ standard
  · exact reads _ _ found

theorem lt_of_natBelow? {json : Value} (read : json.natBelow? bound = some number) : number < bound := by
  unfold Value.natBelow? at read
  split at read
  · split at read
    · simp only [Option.ite_none_right_eq_some, Option.some.injEq] at read
      obtain ⟨below, rfl⟩ := read
      exact below
    · cases read
  · cases read

end EpisodicReplay.Json
