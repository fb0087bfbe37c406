import AccessPlanner.Proofs.Document.Reader

/-!
# Condition sets that are read back

A condition set is written as a document and read back from it.  Writing puts the fields in the
order of their names and leaves out what is absent; reading takes them in any order and goes on from
a default.  What is read back is the set itself, but for a refused condition, which is no part of a
document (`ConditionSet.read_toJson`).  A condition on a property without a name is refused when it
is read, and so is a set with one (`ConditionSet.read_toJson_of_nameless`).

Whatever else a set is read from, its conditions are admitted and none of them was refused
(`ConditionSet.isAdmitted_of_read`).
-/

namespace AccessPlanner

variable {α : Type}

/-! ### Names -/

theorem Operator.read_name (operator : Operator) :
    Operator.read (Json.string operator.name) = .ok operator :=
  Reader.choice_name operator.mem_all fun _ _ h => name_injective h

theorem Direction.read_name (direction : Direction) :
    Direction.read (Json.string direction.name) = .ok direction := by
  cases direction <;> rfl

/-! ### Conditions and orders -/

namespace Condition

/-- **A condition is admitted anew** when it is read back. -/
theorem read_toJson_eq (condition : Condition) :
    read condition.toJson =
      (make condition.property condition.operator condition.values).mapError .condition := by
  have hfills : Record.Fills record {}
      [("operator", .string condition.operator.name), ("property", .string condition.property),
        ("values", .array condition.values)]
      ⟨condition.property, condition.operator, condition.values⟩ :=
    .cons rfl (Field.read_mandatory (Operator.read_name _) _) <|
      .cons rfl (Field.read_mandatory (Reader.string_string _) _) <|
        .single rfl (Field.read_optional (Reader.list_value _) _)
  have hdraft : record.read {} condition.toJson =
      .ok ⟨condition.property, condition.operator, condition.values⟩ :=
    hfills.read_ofFields (.swap ..)
      (by decide : ["operator", "property", "values"].Pairwise (· < ·))
      (by simp [record, Field.mandatory, Field.optional])
  unfold read
  rw [hdraft]
  rfl

/-- **A condition is read back** if its property has a name. -/
theorem read_toJson {condition : Condition} (h : condition.property ≠ "") :
    read condition.toJson = .ok condition := by
  rw [read_toJson_eq, make_of_ne_empty h]
  rfl

theorem read_toJson_of_nameless {condition : Condition} (h : condition.property = "") :
    read condition.toJson = .error (.condition .emptyProperty) := by
  rw [read_toJson_eq, make, if_pos h]
  rfl

/-- A condition that is read is admitted. -/
theorem property_ne_empty_of_read [Readable α] {source : α} {condition : Condition}
    (h : read source = .ok condition) : condition.property ≠ "" := by
  obtain ⟨draft, -, h⟩ := bind_eq_ok_iff.mp h
  exact property_ne_empty_of_make (mapError_eq_ok_iff.mp h)

end Condition

namespace SortOrder

/-- **An order is read back.** -/
theorem read_toJson (order : SortOrder) : read order.toJson = .ok order := by
  have hfills : Record.Fills record { property := "" }
      [("direction", .string order.direction.name), ("property", .string order.property)] order :=
    .cons rfl (Field.read_optional (Direction.read_name _) _) <|
      .single rfl (Field.read_mandatory (Reader.string_string _) _)
  exact hfills.read_ofFields (.swap ..) (by decide : ["direction", "property"].Pairwise (· < ·))
    (by simp [record, Field.mandatory, Field.optional])

theorem optional_read_toJson (order : SortOrder) :
    Reader.optional read order.toJson = .ok (some order) := by
  refine Reader.optional_of_ok ?_ order.read_toJson
  simp [toJson, Json.ofFields, Readable.view, Json.view]

end SortOrder

/-! ### Condition sets -/

namespace ConditionSet

/-- **A set of which no condition was refused.** -/
structure IsAdmitted (set : ConditionSet) : Prop where
  rejected : set.rejected = none
  named : ∀ condition ∈ set.conditions, condition.property ≠ ""

/-- **A set that is read from a document is admitted,** whatever the document: there is no field for
a refused condition, and every condition in it is looked at anew. -/
theorem isAdmitted_of_read [Readable α] {source : α} {set : ConditionSet}
    (h : read source = .ok set) : set.IsAdmitted := by
  refine Record.read_preserves ?_ ⟨rfl, List.forall_mem_nil _⟩ h
  simp only [record, List.forall_mem_cons]
  refine ⟨?_, ?_, ?_, ?_, List.forall_mem_nil _⟩
  all_goals
    intro source state next hread hstate
    obtain ⟨element, helement, rfl⟩ := Field.exists_of_read_optional hread
  · exact ⟨hstate.rejected, Reader.forall_mem_of_list_eq_ok
      (fun _ _ => Condition.property_ne_empty_of_read) helement⟩
  · exact ⟨hstate.rejected, hstate.named⟩
  · exact ⟨hstate.rejected, hstate.named⟩
  · exact ⟨hstate.rejected, hstate.named⟩

/-- The fields of the document of a set, in the order of their names. -/
def fields (set : ConditionSet) : List (String × Json) :=
  [("conditions", .array (set.conditions.map Condition.toJson)),
      ("consistent_read", .bool set.consistentRead)]
    ++ Json.optionalField "limit" Json.ofNat set.limit
    ++ Json.optionalField "sort" SortOrder.toJson set.sort

theorem sorted_fields (set : ConditionSet) :
    (set.fields.map fun field => field.1).Pairwise (· < ·) := by
  have hnames : ∀ isLimited isSorted : Bool,
      (["conditions", "consistent_read"] ++ (if isLimited then ["limit"] else [])
        ++ (if isSorted then ["sort"] else [])).Pairwise (· < ·) := by decide
  unfold fields
  rw [List.map_append, List.map_append, Json.names_optionalField, Json.names_optionalField]
  exact hnames set.limit.isSome set.sort.isSome

/-- The fields make up the set, but for the condition that was refused. -/
theorem fills_fields {set : ConditionSet}
    (h : ∀ condition ∈ set.conditions, condition.property ≠ "") :
    Record.Fills record empty set.fields { set with rejected := none } := by
  obtain ⟨conditions, sort, limit, consistentRead, rejected⟩ := set
  have hconditions : Reader.list Condition.read
      (Json.array (conditions.map Condition.toJson)) = .ok conditions :=
    Reader.list_array fun condition hmem => Condition.read_toJson (h condition hmem)
  have hlimit : Record.Fills record { conditions, consistentRead }
      (Json.optionalField "limit" Json.ofNat limit) { conditions, limit, consistentRead } := by
    refine .optionalField rfl ?_ ?_
    · rintro rfl
      rfl
    · rintro count rfl
      exact Field.read_optional (Reader.optional_natural_ofNat count) _
  have hsort : Record.Fills record { conditions, limit, consistentRead }
      (Json.optionalField "sort" SortOrder.toJson sort)
      { conditions, sort, limit, consistentRead } := by
    refine .optionalField rfl ?_ ?_
    · rintro rfl
      rfl
    · rintro order rfl
      exact Field.read_optional order.optional_read_toJson _
  unfold fields
  rw [List.append_assoc]
  exact .cons rfl (Field.read_optional hconditions _) <|
    .cons rfl (Field.read_optional (Reader.bool_bool _) _) <| hlimit.append hsort

theorem fields_perm (set : ConditionSet) :
    set.fields.Perm
      ([("conditions", .array (set.conditions.map Condition.toJson)),
          ("consistent_read", .bool set.consistentRead)]
        ++ Json.optionalField "sort" SortOrder.toJson set.sort
        ++ Json.optionalField "limit" Json.ofNat set.limit) := by
  unfold fields
  rw [List.append_assoc, List.append_assoc]
  exact List.perm_append_comm.append_left _

/-- **A condition set is read back** without the condition that was refused, if the properties of
its conditions have names. -/
theorem read_toJson {set : ConditionSet}
    (h : ∀ condition ∈ set.conditions, condition.property ≠ "") :
    read set.toJson = .ok { set with rejected := none } :=
  (fills_fields h).read_ofFields set.fields_perm set.sorted_fields
    (by simp [record, Field.optional])

/-- **A condition without a property** keeps a set from being read back. -/
theorem read_toJson_of_nameless {set : ConditionSet}
    (h : ∃ condition ∈ set.conditions, condition.property = "") :
    read set.toJson = .error (.condition .emptyProperty) := by
  have hvisit : Condition.read ∘ Condition.toJson = fun condition : Condition =>
      if decide (condition.property = "") = true then
        .error (DocumentError.condition .emptyProperty)
      else .ok (id condition) := by
    funext condition
    by_cases hname : condition.property = ""
    · rw [if_pos (decide_eq_true hname)]
      exact Condition.read_toJson_of_nameless hname
    · rw [if_neg (by simpa using hname)]
      exact Condition.read_toJson hname
  have hconditions : (set.conditions.map Condition.toJson).mapM Condition.read =
      .error (DocumentError.condition .emptyProperty) := by
    obtain ⟨condition, hmem, hname⟩ := h
    rw [List.mapM_map, hvisit, mapM_ite_error, if_pos]
    exact List.any_eq_true.mpr ⟨condition, hmem, decide_eq_true hname⟩
  -- the conditions come first among the fields
  have hfields : Record.readFields record [] empty
      (set.fields.map fun field => (some field.1, field.2)) =
        .error (DocumentError.condition .emptyProperty) := by
    show ((Except.map _ ((set.conditions.map Condition.toJson).mapM Condition.read)) >>= _) = _
    rw [hconditions]
    rfl
  unfold read toJson
  rw [Json.ofFields_eq_object set.fields_perm set.sorted_fields]
  show (Record.readFields record [] empty (set.fields.map fun field => (some field.1, field.2))
    >>= _) = _
  rw [hfields]
  rfl

end ConditionSet

end AccessPlanner
