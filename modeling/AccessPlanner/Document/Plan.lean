import AccessPlanner.Document.Condition
import AccessPlanner.Request

/-!
# Plan and request documents

How plans and requests are written.  A plan writes `null` for what it does not have; a request
leaves it out.
-/

namespace AccessPlanner

/-! ### Plans -/

/-- A value as it is written, or `null`. -/
def Json.orNull {β : Type} (write : β → Json) : Option β → Json
  | some value => write value
  | none => .null

/-- **The document of a plan.** -/
def AccessPlan.toJson : AccessPlan → Json
  | load hashValue rangeValue =>
    .ofFields
      [("mode", .string "load"), ("hash_value", hashValue),
        ("range_value", Json.ofOption rangeValue)]
  | query plan =>
    .ofFields
      [("mode", .string "query"), ("index_name", Json.orNull .string plan.indexName),
        ("hash_condition", plan.hash.toJson),
        ("range_condition", Json.orNull Condition.toJson plan.range),
        ("filter_conditions", .array (plan.filters.map Condition.toJson)),
        ("sort", Json.orNull SortOrder.toJson plan.sort)]
  | scan plan =>
    .ofFields
      [("mode", .string "scan"), ("filter_conditions", .array (plan.filters.map Condition.toJson)),
        ("sort", Json.orNull SortOrder.toJson plan.sort)]

/-! ### Requests -/

/-- The document of a key attribute. -/
def KeyAttribute.toJson (key : KeyAttribute) : Json :=
  .ofFields [("attribute", .string key.name), ("value", key.value)]

/-- **The document of a request.** -/
def StoreRequest.toJson : StoreRequest → Json
  | load request =>
    .ofFields
      ([("operation", .string "load"), ("hash_key", request.hashKey.toJson),
          ("consistent_read", .bool request.consistentRead)]
        ++ Json.optionalField "range_key" KeyAttribute.toJson request.rangeKey)
  | query request =>
    .ofFields
      ([("operation", .string "query"), ("hash_key", request.hashKey.toJson),
          ("scan_index_forward", .bool request.scanIndexForward),
          ("consistent_read", .bool request.consistentRead),
          ("select", .string request.select.name)]
        ++ Json.optionalField "index_name" .string request.indexName
        ++ Json.optionalField "range_key" AttributeCondition.toJson request.rangeKey
        ++ Json.arrayField "filter" AttributeCondition.toJson request.filters
        ++ Json.optionalField "limit" Json.ofNat request.limit)
  | scan request =>
    .ofFields
      ([("operation", .string "scan"), ("select", .string request.select.name)]
        ++ Json.arrayField "filter" AttributeCondition.toJson request.filters
        ++ Json.optionalField "sort" SortOrder.toJson request.sort
        ++ Json.optionalField "limit" Json.ofNat request.limit)

end AccessPlanner
