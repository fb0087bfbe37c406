import AccessPlanner.Document.Reader
import AccessPlanner.Filter

/-!
# Condition documents

The documents of conditions, orders, condition sets and attribute conditions: how they are read
and how they are written.  A condition is read only if it is admitted.
-/

namespace AccessPlanner

variable {α : Type} [Readable α]

/-! ### Names -/

/-- Reading an operator. -/
def Operator.read : Reader α Operator := Reader.choice Operator.all Operator.name

/-- The name of a direction. -/
def Direction.name : Direction → String
  | ascending => "ASC"
  | descending => "DESC"

/-- Reading a direction. -/
def Direction.read : Reader α Direction := Reader.choice [ascending, descending] name

/-- The name of a projection. -/
def Projection.name : Projection → String
  | items => "items"
  | count => "count"

/-- Reading a projection. -/
def Projection.read : Reader α Projection := Reader.choice [items, count] name

/-! ### Conditions -/

namespace Condition

/-- What a document says of a condition, before it is admitted. -/
structure Draft where
  property : String := ""
  operator : Operator := .eq
  values : List Json := []

/-- The fields of a condition. -/
def record : Record α Draft :=
  [.mandatory "property" .string fun property draft => { draft with property },
    .mandatory "operator" Operator.read fun operator draft => { draft with operator },
    .optional "values" (.list .value) fun values draft => { draft with values }]

/-- **Reading a condition.** What was read as a whole is admitted or refused. -/
def read : Reader α Condition := fun source => do
  let draft ← record.read {} source
  (make draft.property draft.operator draft.values).mapError .condition

/-- The document of a condition. -/
def toJson (condition : Condition) : Json :=
  .ofFields
    [("property", .string condition.property), ("operator", .string condition.operator.name),
      ("values", .array condition.values)]

end Condition

/-! ### Orders -/

namespace SortOrder

/-- The fields of an order. -/
def record : Record α SortOrder :=
  [.mandatory "property" .string fun property draft => { draft with property },
    .optional "direction" Direction.read fun direction draft => { draft with direction }]

/-- Reading an order; it is ascending unless it says otherwise. -/
def read : Reader α SortOrder := record.read { property := "" }

/-- The document of an order. -/
def toJson (order : SortOrder) : Json :=
  .ofFields [("property", .string order.property), ("direction", .string order.direction.name)]

end SortOrder

/-- A field of a document, or none for what is absent. -/
def Json.optionalField {β : Type} (name : String) (write : β → Json) :
    Option β → List (String × Json)
  | some value => [(name, write value)]
  | none => []

/-- A field with an array, or none for an empty one. -/
def Json.arrayField {β : Type} (name : String) (write : β → Json) (items : List β) :
    List (String × Json) :=
  if items.isEmpty then [] else [(name, .array (items.map write))]

/-! ### Condition sets -/

namespace ConditionSet

/-- The fields of a condition set. -/
def record : Record α ConditionSet :=
  [.optional "conditions" (.list Condition.read) fun conditions draft => { draft with conditions },
    .optional "sort" (.optional SortOrder.read) fun sort draft => { draft with sort },
    .optional "limit" (.optional .natural) fun limit draft => { draft with limit },
    .optional "consistent_read" .bool fun consistentRead draft => { draft with consistentRead }]

/-- Reading a condition set. -/
def read : Reader α ConditionSet := record.read empty

/-- The document of a condition set.  A refused condition is no part of it. -/
def toJson (set : ConditionSet) : Json :=
  .ofFields
    ([("conditions", .array (set.conditions.map Condition.toJson)),
        ("consistent_read", .bool set.consistentRead)]
      ++ Json.optionalField "sort" SortOrder.toJson set.sort
      ++ Json.optionalField "limit" Json.ofNat set.limit)

end ConditionSet

/-! ### Attribute conditions -/

namespace AttributeCondition

/-- The fields of an attribute condition. -/
def record : Record α AttributeCondition :=
  [.mandatory "attribute" .string fun name draft => { draft with name },
    .mandatory "operator" Operator.read fun operator draft => { draft with operator },
    .optional "values" (.list .value) fun values draft => { draft with values }]

/-- Reading an attribute condition, with any number of values. -/
def read : Reader α AttributeCondition := record.read { name := "", operator := .eq }

/-- The document of an attribute condition. -/
def toJson (condition : AttributeCondition) : Json :=
  .ofFields
    ([("attribute", .string condition.name), ("operator", .string condition.operator.name)]
      ++ Json.arrayField "values" id condition.values)

end AttributeCondition

end AccessPlanner
