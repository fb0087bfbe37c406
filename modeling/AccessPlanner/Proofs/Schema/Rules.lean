import AccessPlanner.Schema

/-!
# What the rules of a schema give

A declaration breaks no rule iff its names and keys are as `violation?_eq_none_iff` lists them.
For a `KeySchema`, which carries the absence of violations, the single facts follow: the two
properties of a key differ, the names of the indexes are pairwise distinct, and no composite id
is a key property.
-/

namespace AccessPlanner

namespace SchemaDecl

/-- **The rules for indexes** after the names of earlier ones. -/
theorem indexViolation?_eq_none_iff (earlier : List String) (indexes : List IndexDefinition) :
    indexViolation? earlier indexes = none ↔
      (∀ index ∈ indexes,
        index.name ≠ "" ∧ index.name ∉ earlier ∧ index.isConflicting = false) ∧
      (indexes.map (·.name)).Nodup := by
  induction indexes generalizing earlier with
  | nil => simp [indexViolation?]
  | cons index rest ih =>
    rw [List.map_cons, List.nodup_cons]
    simp only [indexViolation?, List.forall_mem_cons]
    by_cases hname : index.name = ""
    · simp [hname]
    rw [if_neg hname]
    by_cases hdup : index.name ∈ earlier
    · simp [hdup]
    rw [if_neg (by simpa using hdup)]
    cases hconflict : index.isConflicting
    · rw [if_neg (by simp), ih]
      constructor
      · rintro ⟨hrest, hnodup⟩
        refine ⟨⟨⟨hname, hdup, rfl⟩, fun other hother => ?_⟩, ?_, hnodup⟩
        · obtain ⟨hname', hdup', hconflict'⟩ := hrest other hother
          exact ⟨hname', fun h => hdup' (List.mem_cons_of_mem _ h), hconflict'⟩
        · intro hmem
          obtain ⟨other, hother, hsame⟩ := List.mem_map.mp hmem
          exact (hrest other hother).2.1 (hsame ▸ List.mem_cons_self ..)
      · rintro ⟨⟨-, hrest⟩, hnew, hnodup⟩
        refine ⟨fun other hother => ?_, hnodup⟩
        obtain ⟨hname', hdup', hconflict'⟩ := hrest other hother
        refine ⟨hname', fun h => ?_, hconflict'⟩
        rcases List.mem_cons.mp h with hsame | h
        · exact hnew (hsame ▸ List.mem_map_of_mem hother)
        · exact hdup' h
    · simp

/-- **The rules for declarations.** -/
theorem violation?_eq_none_iff (decl : SchemaDecl) :
    decl.violation? = none ↔
      decl.primary.hashKey ≠ "" ∧ decl.primary.isConflicting = false ∧
      (∀ index ∈ decl.indexes, index.name ≠ "" ∧ index.isConflicting = false) ∧
      (decl.indexes.map (·.name)).Nodup ∧
      ∀ property ∈ decl.compositeIds, decl.primary.has property = false := by
  unfold violation?
  by_cases hname : decl.primary.hashKey = ""
  · simp [hname]
  rw [if_neg hname]
  cases hconflict : decl.primary.isConflicting
  · rw [if_neg (by simp)]
    have hindexes := indexViolation?_eq_none_iff [] decl.indexes
    simp only [List.not_mem_nil, not_false_eq_true, true_and] at hindexes
    cases hviolation : indexViolation? [] decl.indexes with
    | some error =>
      rw [hviolation] at hindexes
      have hbroken := mt hindexes.mpr (by simp)
      constructor
      · intro h
        cases h
      · rintro ⟨-, -, heach, hnodup, -⟩
        exact absurd ⟨heach, hnodup⟩ hbroken
    | none =>
      obtain ⟨heach, hnodup⟩ := hindexes.mp hviolation
      simp only [Option.map_eq_none_iff, List.find?_eq_none, Bool.not_eq_true]
      exact ⟨fun hids => ⟨hname, trivial, heach, hnodup, hids⟩, fun h => h.2.2.2.2⟩
  · simp

end SchemaDecl

namespace KeySchema

variable (schema : KeySchema)

theorem hashKey_ne_empty : schema.hashKey ≠ "" :=
  ((SchemaDecl.violation?_eq_none_iff _).mp schema.valid).1

theorem rangeKey_ne_hashKey : schema.rangeKey ≠ some schema.hashKey := by
  obtain ⟨-, h, -⟩ := (SchemaDecl.violation?_eq_none_iff _).mp schema.valid
  simpa [KeyPair.isConflicting, rangeKey, hashKey] using h

theorem nodup_indexNames : (schema.indexes.map (·.name)).Nodup :=
  ((SchemaDecl.violation?_eq_none_iff _).mp schema.valid).2.2.2.1

theorem nodup_indexes : schema.indexes.Nodup :=
  List.Pairwise.of_map _ (fun _ _ hnames hsame => hnames (congrArg _ hsame)) schema.nodup_indexNames

variable {schema}

theorem has_hashKey (schema : KeySchema) : schema.primary.has schema.hashKey = true :=
  Bool.or_eq_true_iff.mpr (.inl (beq_self_eq_true _))

theorem has_rangeKey {property : String} (h : schema.rangeKey = some property) :
    schema.primary.has property = true :=
  Bool.or_eq_true_iff.mpr (.inr (beq_iff_eq.mpr h))

theorem has_eq_false_iff {property : String} :
    schema.primary.has property = false ↔
      schema.hashKey ≠ property ∧ schema.rangeKey ≠ some property := by
  rw [KeyPair.has, Bool.or_eq_false_iff, beq_eq_false_iff_ne, beq_eq_false_iff_ne]
  rfl

theorem index_rangeKey_ne_hashKey {index : IndexDefinition} (h : index ∈ schema.indexes) :
    index.rangeKey ≠ some index.hashKey := by
  obtain ⟨-, -, heach, -⟩ := (SchemaDecl.violation?_eq_none_iff _).mp schema.valid
  simpa [KeyPair.isConflicting] using (heach index h).2

/-- A property of the primary key is no composite id. -/
theorem isCompositeId_eq_false {property : String} (h : schema.primary.has property = true) :
    schema.isCompositeId property = false := by
  obtain ⟨-, -, -, -, hids⟩ := (SchemaDecl.violation?_eq_none_iff _).mp schema.valid
  rw [isCompositeId, Bool.eq_false_iff]
  intro hmem
  have hnot := hids property (by simpa [compositeIds] using hmem)
  rw [show schema.decl.primary.has property = true from h] at hnot
  cases hnot

theorem index?_name {index : IndexDefinition} (h : index ∈ schema.indexes) :
    schema.index? index.name = some index := by
  have hnodup := schema.nodup_indexNames
  unfold index?
  generalize schema.indexes = indexes at h hnodup
  induction indexes with
  | nil => cases h
  | cons first rest ih =>
    rw [List.map_cons, List.nodup_cons] at hnodup
    rcases List.mem_cons.mp h with rfl | hrest
    · simp
    · have hne : first.name ≠ index.name := fun heq =>
        hnodup.1 (heq ▸ List.mem_map_of_mem hrest)
      rw [List.find?_cons_of_neg (by simpa using hne)]
      exact ih hrest hnodup.2

/-! ### Schemas for examples -/

/-- Orders by customer and day.  One index shares the range property of the primary key, one swaps
its two properties, and the day is stored under another name. -/
def orders : KeySchema where
  decl :=
    (SchemaDecl.ofHashKey "customer").withRangeKey "day"
      |>.withIndex { name := "byStatus", hashKey := "status", rangeKey := some "day" }
      |>.withIndex { name := "byDay", hashKey := "day", rangeKey := some "customer" }
      |>.withCompositeId "id"
      |>.withAttributeName "day" "placed"
  valid := rfl

/-- Invoices by customer and day.  The two indexes have the same properties in both directions. -/
def invoices : KeySchema where
  decl :=
    (SchemaDecl.ofHashKey "customer").withRangeKey "day"
      |>.withIndex { name := "byTotal", hashKey := "total", rangeKey := some "customer" }
      |>.withIndex { name := "byCustomer", hashKey := "customer", rangeKey := some "total" }
  valid := rfl

/-- Parcels by customer and day.  The index shares no property with the primary key. -/
def parcels : KeySchema where
  decl :=
    (SchemaDecl.ofHashKey "customer").withRangeKey "day"
      |>.withIndex { name := "byRegion", hashKey := "region", rangeKey := some "weight" }
  valid := rfl

end KeySchema

end AccessPlanner
