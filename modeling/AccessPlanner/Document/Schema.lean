import AccessPlanner.Document.Condition
import AccessPlanner.Schema

/-!
# Schema documents

A schema document declares a schema, and is read only if the declaration breaks no rule.
-/

namespace AccessPlanner

variable {α : Type} [Readable α]

/-! ### Indexes -/

namespace IndexDefinition

/-- The fields of an index. -/
def record : Record α IndexDefinition :=
  [.mandatory "name" .string fun name draft => { draft with name },
    .mandatory "hash_key" .string fun hashKey draft => { draft with hashKey },
    .optional "range_key" (.optional .string) fun rangeKey draft => { draft with rangeKey }]

/-- Reading an index. -/
def read : Reader α IndexDefinition := record.read { name := "", hashKey := "" }

/-- The document of an index. -/
def toJson (index : IndexDefinition) : Json :=
  .ofFields
    ([("name", .string index.name), ("hash_key", .string index.hashKey)]
      ++ Json.optionalField "range_key" .string index.rangeKey)

end IndexDefinition

/-! ### Schemas -/

namespace SchemaDecl

/-- The fields of a declaration. -/
def record : Record α SchemaDecl :=
  [.mandatory "hash_key" .string
      fun hashKey draft => { draft with primary := { draft.primary with hashKey } },
    .optional "range_key" (.optional .string)
      fun rangeKey draft => { draft with primary := { draft.primary with rangeKey } },
    .optional "indexes" (.list IndexDefinition.read) fun indexes draft => { draft with indexes },
    .optional "composite_ids" (.list .string)
      fun compositeIds draft => { draft with compositeIds },
    .optional "attribute_names" (.table .string)
      fun attributeNames draft => { draft with attributeNames }]

/-- The fields of the document of a declaration. -/
def toJson (decl : SchemaDecl) : Json :=
  let names := decl.attributeNames.entries.map fun entry => (entry.1, Json.string entry.2)
  .ofFields
    ([("hash_key", .string decl.primary.hashKey)]
      ++ Json.optionalField "range_key" .string decl.primary.rangeKey
      ++ Json.arrayField "indexes" IndexDefinition.toJson decl.indexes
      ++ Json.arrayField "composite_ids" .string decl.compositeIds
      ++ (if names.isEmpty then [] else [("attribute_names", .object names)]))

end SchemaDecl

namespace KeySchema

/-- **Reading a schema.** What was read as a whole is built or refused. -/
def read : Reader α KeySchema := fun source => do
  let decl ← SchemaDecl.record.read (.ofHashKey "") source
  decl.build.mapError .schema

/-- The document of a schema. -/
def toJson (schema : KeySchema) : Json := schema.decl.toJson

end KeySchema

end AccessPlanner
