import AccessPlanner.Error
import AccessPlanner.Json.Basic

/-!
# Key schemas

A `SchemaDecl` states the keys, the indexes, the composite ids and the attribute names of an
entity type; a `KeySchema` is a declaration that breaks no rule, and `SchemaDecl.build` makes it.
`EntityKeys` is a schema together with the way in which composite ids fall apart.
-/

namespace AccessPlanner

/-! ### Keys and indexes -/

/-- **A key:** a hash property and, for some keys, a range property. -/
structure KeyPair where
  hashKey : String
  rangeKey : Option String := none
  deriving DecidableEq

namespace KeyPair

/-- The properties of a key, the hash property first. -/
def properties (key : KeyPair) : List String := key.hashKey :: key.rangeKey.toList

/-- Whether a property is the hash or the range property. -/
def has (key : KeyPair) (property : String) : Bool :=
  key.hashKey == property || key.rangeKey == some property

/-- Whether one property serves as both. -/
def isConflicting (key : KeyPair) : Bool := key.rangeKey == some key.hashKey

/-- The key with its properties renamed. -/
def rename (key : KeyPair) (names : String → String) : KeyPair :=
  { hashKey := names key.hashKey, rangeKey := key.rangeKey.map names }

end KeyPair

/-- **A secondary index:** a key under a name. -/
structure IndexDefinition extends KeyPair where
  name : String
  deriving DecidableEq

/-! ### Declarations -/

/-- **The declaration of a schema.** -/
structure SchemaDecl where
  primary : KeyPair
  indexes : List IndexDefinition := []
  compositeIds : List String := []
  attributeNames : NameMap String := {}
  deriving DecidableEq

namespace SchemaDecl

/-- The declaration of a hash key alone. -/
def ofHashKey (hashKey : String) : SchemaDecl := { primary := { hashKey } }

/-- The declaration with a range key, in place of an earlier one. -/
def withRangeKey (decl : SchemaDecl) (property : String) : SchemaDecl :=
  { decl with primary := { decl.primary with rangeKey := some property } }

/-- The declaration with one more index. -/
def withIndex (decl : SchemaDecl) (index : IndexDefinition) : SchemaDecl :=
  { decl with indexes := decl.indexes ++ [index] }

/-- The declaration with one more composite id. -/
def withCompositeId (decl : SchemaDecl) (property : String) : SchemaDecl :=
  { decl with compositeIds := decl.compositeIds ++ [property] }

/-- The declaration that stores a property under an attribute name of its own. -/
def withAttributeName (decl : SchemaDecl) (property stored : String) : SchemaDecl :=
  { decl with attributeNames := decl.attributeNames.insert property stored }

/-- The first rule that a list of indexes breaks after the names of earlier ones, from left to
right: every name is given, is new, and stands for a key of two different properties. -/
def indexViolation? : List String → List IndexDefinition → Option SchemaError
  | _, [] => none
  | earlier, index :: rest =>
    if index.name = "" then some .emptyIndexName
    else if earlier.contains index.name then some (.duplicateIndex index.name)
    else if index.isConflicting then some (.indexKeyConflict index.name index.hashKey)
    else indexViolation? (index.name :: earlier) rest

/-- **The first rule that a declaration breaks:** of the primary key, then of the indexes, then
of the composite ids. -/
def violation? (decl : SchemaDecl) : Option SchemaError :=
  if decl.primary.hashKey = "" then some .missingHashKey
  else if decl.primary.isConflicting then some (.rangeKeyIsHashKey decl.primary.hashKey)
  else
    match indexViolation? [] decl.indexes with
    | some error => some error
    | none => (decl.compositeIds.find? decl.primary.has).map .compositeIdIsKey

end SchemaDecl

/-! ### Schemas -/

/-- **A key schema:** a declaration that breaks no rule. -/
structure KeySchema where
  decl : SchemaDecl
  valid : decl.violation? = none
  deriving DecidableEq

/-- The schema of a declaration, or the first rule it breaks. -/
def SchemaDecl.build (decl : SchemaDecl) : Except SchemaError KeySchema :=
  match h : decl.violation? with
  | none => .ok ⟨decl, h⟩
  | some error => .error error

namespace KeySchema

/-- The primary key. -/
def primary (schema : KeySchema) : KeyPair := schema.decl.primary

/-- The hash property of the primary key. -/
def hashKey (schema : KeySchema) : String := schema.decl.primary.hashKey

/-- The range property of the primary key. -/
def rangeKey (schema : KeySchema) : Option String := schema.decl.primary.rangeKey

/-- The secondary indexes, in the order of their declaration. -/
def indexes (schema : KeySchema) : List IndexDefinition := schema.decl.indexes

/-- The properties that stand for a whole primary key. -/
def compositeIds (schema : KeySchema) : List String := schema.decl.compositeIds

/-- Whether a property is the hash property of the primary key. -/
def isHashKey (schema : KeySchema) (property : String) : Bool := schema.hashKey == property

/-- Whether a property is the range property of the primary key. -/
def isRangeKey (schema : KeySchema) (property : String) : Bool :=
  schema.rangeKey == some property

/-- Whether a property is a composite id. -/
def isCompositeId (schema : KeySchema) (property : String) : Bool :=
  schema.compositeIds.contains property

/-- The index of a name. -/
def index? (schema : KeySchema) (name : String) : Option IndexDefinition :=
  schema.indexes.find? fun index => index.name == name

/-- The indexes with a property in their key. -/
def indexesFor (schema : KeySchema) (property : String) : List IndexDefinition :=
  schema.indexes.filter fun index => index.has property

/-- Whether some index has a property as its hash property. -/
def isIndexHashKey (schema : KeySchema) (property : String) : Bool :=
  schema.indexes.any fun index => index.hashKey == property

/-- Whether some index has a property as its range property. -/
def isIndexRangeKey (schema : KeySchema) (property : String) : Bool :=
  schema.indexes.any fun index => index.rangeKey == some property

/-- The attribute name that is given to a property. -/
def overriddenName? (schema : KeySchema) (property : String) : Option String :=
  schema.decl.attributeNames.get? property

/-- **The attribute that stores a property:** the given name, or the property itself. -/
def attributeName (schema : KeySchema) (property : String) : String :=
  (schema.overriddenName? property).getD property

end KeySchema

/-! ### Composite ids -/

/-- **The components of a composite id:** a value for the hash property and one for the range
property, as far as there are any. -/
structure Components where
  hash : Option Json := none
  range : Option Json := none

/-- The decomposition of objects: the fields named after the key properties, unless they are
`null`. -/
def KeySchema.decompose (schema : KeySchema) (value : Json) : Components :=
  let component (property : String) := (value.field? property).filter fun part => !part.isNull
  { hash := component schema.hashKey, range := schema.rangeKey.bind component }

/-- The decomposition of pairs: the first item of an array and the second one, `null` included,
whether or not there is a range property. -/
def Components.ofPair : Json → Components
  | .array items => { hash := items[0]?, range := items[1]? }
  | _ => {}

/-- **An entity type as the planner sees it:** its schema, and how a composite id falls apart. -/
structure EntityKeys where
  schema : KeySchema
  decompose : Json → Components

/-- The entity type whose composite ids are objects. -/
def KeySchema.entity (schema : KeySchema) : EntityKeys := ⟨schema, schema.decompose⟩

/-- The entity type whose composite ids are pairs. -/
def KeySchema.pairEntity (schema : KeySchema) : EntityKeys := ⟨schema, Components.ofPair⟩

end AccessPlanner
