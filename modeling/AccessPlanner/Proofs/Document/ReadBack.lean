import AccessPlanner.Document.Config
import AccessPlanner.Proofs.Document.Building
import AccessPlanner.Proofs.Schema.Validity

/-!
# Documents that are read back

Schemas, condition sets, attribute conditions and configurations are written as documents and read
from them.  Writing leaves out what is empty, and reading goes on from defaults that are right for
that; a schema is built anew from its declaration and a condition is admitted anew.  What is written
is read back as it was (`documents_read_back`), so that reading a document, writing what was read
and reading it again is the same as reading the document once.

There is one exception.  Routing makes equalities without a look at the names of their properties,
and a valid set may hold one of a property without a name, whose document is then refused
(`not_read_back_nameless_residual`).
-/

namespace AccessPlanner

/-! ### Attribute conditions -/

namespace AttributeCondition

/-- **An attribute condition is read back,** whatever the number of its values. -/
theorem read_toJson (condition : AttributeCondition) : read condition.toJson = .ok condition := by
  obtain ⟨name, operator, values⟩ := condition
  have hvalues : Record.Fills record { name, operator } (Json.arrayField "values" id values)
      { name, operator, values } := by
    refine .arrayField rfl ?_ (Field.read_optional ?_ _)
    · rintro rfl
      rfl
    · rw [List.map_id]
      exact Reader.list_value values
  have hfills : Record.Fills record { name := "", operator := .eq }
      ([("attribute", .string name), ("operator", .string operator.name)]
        ++ Json.arrayField "values" id values) { name, operator, values } :=
    .cons rfl (Field.read_mandatory (Reader.string_string _) _) <|
      .cons rfl (Field.read_mandatory (Operator.read_name _) _) hvalues
  have hnames : ∀ isEmpty : Bool,
      (["attribute", "operator"] ++ (if isEmpty then [] else ["values"])).Pairwise (· < ·) := by
    decide
  refine hfills.read_ofFields (.refl _) ?_ (by simp [record, Field.mandatory, Field.optional])
  rw [List.map_append, Json.names_arrayField]
  exact hnames values.isEmpty

end AttributeCondition

/-! ### Configurations -/

theorem IndexOrder.read_name (order : IndexOrder) :
    IndexOrder.read (Json.string order.name) = .ok order := by
  cases order <;> rfl

/-- **A configuration is read back.** -/
theorem PlannerConfig.read_toJson (config : PlannerConfig) : read config.toJson = .ok config := by
  have hfills : Record.Fills record {}
      [("index_order", .string config.indexOrder.name),
        ("scan_count_enabled", .bool config.scanCountEnabled),
        ("scan_enabled", .bool config.scanEnabled)] config :=
    .cons rfl (Field.read_optional (IndexOrder.read_name _) _) <|
      .cons rfl (Field.read_optional (Reader.bool_bool _) _) <|
        .single rfl (Field.read_optional (Reader.bool_bool _) _)
  refine hfills.read_ofFields ?_
    (by decide : ["index_order", "scan_count_enabled", "scan_enabled"].Pairwise (· < ·))
    (by simp [record, Field.optional])
  exact List.reverse_perm [("scan_enabled", Json.bool config.scanEnabled),
    ("scan_count_enabled", Json.bool config.scanCountEnabled),
    ("index_order", Json.string config.indexOrder.name)]

/-! ### Schemas -/

theorem Reader.optional_string (text : String) :
    optional string (Json.string text) = .ok (some text) := rfl

/-- **An index is read back.** -/
theorem IndexDefinition.read_toJson (index : IndexDefinition) : read index.toJson = .ok index := by
  obtain ⟨⟨hashKey, rangeKey⟩, name⟩ := index
  have hrange : Record.Fills record { name, hashKey }
      (Json.optionalField "range_key" .string rangeKey) { name, hashKey, rangeKey } := by
    refine .optionalField rfl ?_ ?_
    · rintro rfl
      rfl
    · rintro property rfl
      exact Field.read_optional (Reader.optional_string property) _
  have hfills : Record.Fills record { name := "", hashKey := "" }
      ([("hash_key", .string hashKey), ("name", .string name)]
        ++ Json.optionalField "range_key" .string rangeKey) { name, hashKey, rangeKey } :=
    .cons rfl (Field.read_mandatory (Reader.string_string _) _) <|
      .cons rfl (Field.read_mandatory (Reader.string_string _) _) hrange
  have hnames : ∀ isRanged : Bool,
      (["hash_key", "name"] ++ (if isRanged then ["range_key"] else [])).Pairwise (· < ·) := by
    decide
  refine hfills.read_ofFields (.swap ..) ?_ (by simp [record, Field.mandatory, Field.optional])
  rw [List.map_append, Json.names_optionalField]
  exact hnames rangeKey.isSome

namespace SchemaDecl

/-- The field of the attribute names, unless there are none. -/
def namesField (names : NameMap String) : List (String × Json) :=
  let entries := names.entries.map fun entry => (entry.1, Json.string entry.2)
  if entries.isEmpty then [] else [("attribute_names", .object entries)]

/-- The fields of the document of a declaration, in the order of their names. -/
def fields (decl : SchemaDecl) : List (String × Json) :=
  namesField decl.attributeNames
    ++ Json.arrayField "composite_ids" .string decl.compositeIds
    ++ [("hash_key", .string decl.primary.hashKey)]
    ++ Json.arrayField "indexes" IndexDefinition.toJson decl.indexes
    ++ Json.optionalField "range_key" .string decl.primary.rangeKey

theorem names_namesField (names : NameMap String) :
    ((namesField names).map fun field => field.1) =
      if names.entries.isEmpty then [] else ["attribute_names"] := by
  obtain ⟨_ | ⟨entry, rest⟩, _⟩ := names <;> rfl

theorem sorted_fields (decl : SchemaDecl) :
    (decl.fields.map fun field => field.1).Pairwise (· < ·) := by
  have hnames : ∀ unnamed idless indexless isRanged : Bool,
      ((if unnamed then [] else ["attribute_names"])
        ++ (if idless then [] else ["composite_ids"]) ++ ["hash_key"]
        ++ (if indexless then [] else ["indexes"])
        ++ (if isRanged then ["range_key"] else [])).Pairwise (· < ·) := by decide
  unfold fields
  rw [List.map_append, List.map_append, List.map_append, List.map_append, names_namesField,
    Json.names_arrayField, Json.names_arrayField, Json.names_optionalField]
  exact hnames _ _ _ _

theorem fields_perm (decl : SchemaDecl) :
    decl.fields.Perm
      ([("hash_key", .string decl.primary.hashKey)]
        ++ Json.optionalField "range_key" .string decl.primary.rangeKey
        ++ Json.arrayField "indexes" IndexDefinition.toJson decl.indexes
        ++ Json.arrayField "composite_ids" .string decl.compositeIds
        ++ namesField decl.attributeNames) := by
  have hreorder : ∀ names ids hash indexes range : List (String × Json),
      (names ++ ids ++ hash ++ indexes ++ range).Perm
        (hash ++ range ++ indexes ++ ids ++ names) := by
    intro names ids hash indexes range
    simp only [List.append_assoc]
    have hkeys : (hash ++ (indexes ++ range)).Perm (hash ++ (range ++ indexes)) :=
      List.perm_append_comm.append_left hash
    have hids : (ids ++ (hash ++ (indexes ++ range))).Perm (hash ++ (range ++ indexes) ++ ids) :=
      List.perm_append_comm.trans (hkeys.append_right ids)
    have hall := List.perm_append_comm.trans (hids.append_right names)
    simpa only [List.append_assoc] using hall
  exact hreorder _ _ _ _ _

/-- The fields make up the declaration, each one in its place. -/
theorem fills_fields (decl : SchemaDecl) :
    Record.Fills record (ofHashKey "") decl.fields decl := by
  obtain ⟨⟨hashKey, rangeKey⟩, indexes, compositeIds, attributeNames⟩ := decl
  have hnames : Record.Fills record (ofHashKey "") (namesField attributeNames)
      { primary := { hashKey := "" }, attributeNames } := by
    have htable : Reader.table Reader.string
        (Json.object (attributeNames.entries.map fun entry => (entry.1, Json.string entry.2))) =
          .ok attributeNames := Reader.table_object fun entry _ => Reader.string_string entry.2
    obtain ⟨_ | ⟨entry, rest⟩, hascending⟩ := attributeNames
    · exact .nil _
    · exact .single rfl (Field.read_optional htable _)
  have hids : Record.Fills record { primary := { hashKey := "" }, attributeNames }
      (Json.arrayField "composite_ids" .string compositeIds)
      { primary := { hashKey := "" }, compositeIds, attributeNames } := by
    refine .arrayField rfl ?_ (Field.read_optional ?_ _)
    · rintro rfl
      rfl
    · exact Reader.list_array fun id _ => Reader.string_string id
  have hhash : Record.Fills record { primary := { hashKey := "" }, compositeIds, attributeNames }
      [("hash_key", .string hashKey)] { primary := { hashKey }, compositeIds, attributeNames } :=
    .single rfl (Field.read_mandatory (Reader.string_string _) _)
  have hindexes : Record.Fills record { primary := { hashKey }, compositeIds, attributeNames }
      (Json.arrayField "indexes" IndexDefinition.toJson indexes)
      { primary := { hashKey }, indexes, compositeIds, attributeNames } := by
    refine .arrayField rfl ?_ (Field.read_optional ?_ _)
    · rintro rfl
      rfl
    · exact Reader.list_array fun index _ => index.read_toJson
  have hrange : Record.Fills record
      { primary := { hashKey }, indexes, compositeIds, attributeNames }
      (Json.optionalField "range_key" .string rangeKey)
      { primary := { hashKey, rangeKey }, indexes, compositeIds, attributeNames } := by
    refine .optionalField rfl ?_ ?_
    · rintro rfl
      rfl
    · rintro property rfl
      exact Field.read_optional (Reader.optional_string property) _
  exact (((hnames.append hids).append hhash).append hindexes).append hrange

/-- **A declaration is read back.** -/
theorem read_toJson (decl : SchemaDecl) : record.read (ofHashKey "") decl.toJson = .ok decl := by
  refine (fills_fields decl).read_ofFields decl.fields_perm decl.sorted_fields ?_
  simp [record, Field.mandatory, Field.optional, fields]

end SchemaDecl

/-- **A schema is read back:** its declaration is, and it still breaks no rule. -/
theorem KeySchema.read_toJson (schema : KeySchema) : read schema.toJson = .ok schema := by
  have hbuild : schema.decl.build = .ok schema := SchemaDecl.build_eq_ok_iff.mpr rfl
  unfold read toJson
  rw [schema.decl.read_toJson]
  show schema.decl.build.mapError _ = _
  rw [hbuild]
  rfl

/-! ### Condition sets -/

/-- **Exactly the admitted sets are read back** as they are. -/
theorem ConditionSet.read_toJson_eq_ok_iff {set : ConditionSet} :
    read set.toJson = .ok set ↔ set.IsAdmitted := by
  constructor
  · exact isAdmitted_of_read
  · intro h
    rw [read_toJson h.named, ← h.rejected]

/-- **A valid set is read back** exactly if every condition in it has a property with a name. -/
theorem ConditionSet.read_toJson_iff_named {set : ConditionSet} (hvalid : set.validate = .ok ()) :
    read set.toJson = .ok set ↔ ∀ condition ∈ set.conditions, condition.property ≠ "" := by
  have hrejected : set.rejected = none := by
    unfold validate at hvalid
    split at hvalid
    next => cases hvalid
    next hnone => exact hnone
  rw [read_toJson_eq_ok_iff]
  exact ⟨fun h => h.named, fun h => ⟨hrejected, h⟩⟩

/-! ### All documents -/

/-- **Documents are read back.** A schema, an attribute condition and a configuration are read back
from their documents as they are.  So is a condition set that is valid, unless a condition in it has
a property without a name; then the document is refused for it.  Steps of building a set bring such
a condition in only if it is put in as it is.  Whatever document anything is read from, a value or a
text, what is written of it is read as the same. -/
theorem documents_read_back (schema : KeySchema) (set : ConditionSet)
    (condition : AttributeCondition) (config : PlannerConfig) {α : Type} [Readable α]
    (document : α) :
    KeySchema.read schema.toJson = .ok schema ∧
      (set.validate = .ok () →
        (ConditionSet.read set.toJson = .ok set ↔
          ∀ held ∈ set.conditions, held.property ≠ "") ∧
        ((∃ held ∈ set.conditions, held.property = "") →
          ConditionSet.read set.toJson = .error (.condition .emptyProperty)) ∧
        (∀ steps, ConditionSet.build steps = .ok set →
          (∀ added, .add added ∈ steps → added.property ≠ "") →
          ConditionSet.read set.toJson = .ok set)) ∧
      AttributeCondition.read condition.toJson = .ok condition ∧
      PlannerConfig.read config.toJson = .ok config ∧
      (KeySchema.read document >>= fun schema => KeySchema.read schema.toJson) =
        KeySchema.read document ∧
      (ConditionSet.read document >>= fun set => ConditionSet.read set.toJson) =
        ConditionSet.read document ∧
      (AttributeCondition.read document >>=
          fun condition => AttributeCondition.read condition.toJson) =
        AttributeCondition.read document ∧
      (PlannerConfig.read document >>= fun config => PlannerConfig.read config.toJson) =
        PlannerConfig.read document := by
  refine ⟨schema.read_toJson, fun hvalid => ?_, condition.read_toJson, config.read_toJson,
    ?_, ?_, ?_, ?_⟩
  · have hiff := ConditionSet.read_toJson_iff_named hvalid
    refine ⟨hiff, ConditionSet.read_toJson_of_nameless, fun steps hbuild hadded => ?_⟩
    refine hiff.mpr fun held hmem => ?_
    rcases (ConditionSet.of_build_eq_ok hbuild).2 held hmem with hname | hmem
    · exact hname
    · exact hadded held hmem
  · exact bind_eq_self_of_forall fun schema _ => schema.read_toJson
  · exact bind_eq_self_of_forall fun set hread =>
      ConditionSet.read_toJson_eq_ok_iff.mpr (ConditionSet.isAdmitted_of_read hread)
  · exact bind_eq_self_of_forall fun condition _ => condition.read_toJson
  · exact bind_eq_self_of_forall fun config _ => config.read_toJson

/-- The latest ten orders of a customer, asked in three steps. -/
theorem documents_read_back_latest_orders :
    let asked : Condition := .equals "customer" (.string "ada")
    let set : ConditionSet :=
      { conditions := [asked], sort := some ⟨"day", .descending⟩, limit := some 10 }
    let steps : List ConditionSet.Step :=
      [.add asked, .sortBy ⟨"day", .descending⟩, .limitTo 10]
    ConditionSet.build steps = .ok set ∧ set.validate = .ok () ∧
      (∀ added, .add added ∈ steps → added.property ≠ "") ∧
      ConditionSet.read set.toJson = .ok set := by
  intro asked set steps
  have hbuild : ConditionSet.build steps = .ok set := rfl
  have hvalid : set.validate = .ok () := rfl
  have hadded : ∀ added, .add added ∈ steps → added.property ≠ "" := by
    intro added hmem
    obtain rfl : added = asked := by simpa [steps] using hmem
    decide
  obtain ⟨-, hset, -⟩ :=
    documents_read_back KeySchema.orders set ⟨"day", .eq, []⟩ {} (Json.object [])
  exact ⟨hbuild, hvalid, hadded, (hset hvalid).2.2 steps hbuild hadded⟩

/-- The equality of a property without a name is routed, and what is residual then is put into a
set: the set is valid, and it is not read back. -/
theorem not_read_back_nameless_residual :
    let criteria := (Criteria.empty.bind KeySchema.orders.entity "" (.ofNat 5)).criteria
    ∃ condition, criteria.residualFor "" = [condition] ∧
      (ConditionSet.empty.add condition).validate = .ok () ∧
      ConditionSet.read (ConditionSet.empty.add condition).toJson =
        .error (.condition .emptyProperty) := by
  intro criteria
  refine ⟨.equals "" (.ofNat 5), rfl, rfl, ConditionSet.read_toJson_of_nameless ?_⟩
  exact ⟨_, List.mem_cons_self .., rfl⟩

end AccessPlanner
