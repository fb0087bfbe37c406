import AccessPlanner.Filter
import AccessPlanner.Plan

/-!
# Store requests

A `StoreRequest` is what a store executes.  Plans speak of properties and requests of attributes;
`AccessPlan.request` takes every name from one to the other, and adds the limit and the
consistency that the condition set asks for.
-/

namespace AccessPlanner

/-! ### Requests -/

/-- The value of a key attribute. -/
structure KeyAttribute where
  name : String
  value : Json

/-- **The request for one item.** -/
structure LoadRequest where
  hashKey : KeyAttribute
  rangeKey : Option KeyAttribute
  consistentRead : Bool

/-- **The request for the items of a hash value,** of the primary key or of an index. -/
structure QueryRequest where
  indexName : Option String
  hashKey : KeyAttribute
  rangeKey : Option AttributeCondition
  filters : List AttributeCondition
  scanIndexForward : Bool
  limit : Option Nat
  consistentRead : Bool
  select : Projection

/-- **The request for everything that passes the filters.** -/
structure ScanRequest where
  filters : List AttributeCondition
  sort : Option SortOrder
  limit : Option Nat
  select : Projection

/-- **A request to a store.** -/
inductive StoreRequest where
  | load (request : LoadRequest)
  | query (request : QueryRequest)
  | scan (request : ScanRequest)

/-! ### Assembly -/

namespace KeySchema

/-- The attribute of a property with a value. -/
def keyAttribute (schema : KeySchema) (property : String) (value : Json) : KeyAttribute :=
  ⟨schema.attributeName property, value⟩

/-- The load of an item.  A range value counts only if there is a range property. -/
def loadRequest (schema : KeySchema) (hashValue : Json) (rangeValue : Option Json)
    (set : ConditionSet) : LoadRequest :=
  { hashKey := schema.keyAttribute schema.hashKey hashValue
    rangeKey := schema.rangeKey.bind fun property => rangeValue.map (schema.keyAttribute property)
    consistentRead := set.consistentRead }

/-- The request of a query plan. -/
def queryRequest (schema : KeySchema) (plan : QueryPlan) (set : ConditionSet)
    (projection : Projection) : QueryRequest :=
  { indexName := plan.indexName
    hashKey := schema.keyAttribute plan.hash.property (.ofOption plan.hash.values.head?)
    rangeKey := plan.range.map schema.attributeCondition
    filters := plan.filters.map schema.attributeCondition
    scanIndexForward := plan.sort.all fun order => order.direction == .ascending
    limit := set.limit
    consistentRead := set.consistentRead
    select := projection }

/-- The request of a scan plan. -/
def scanRequest (schema : KeySchema) (plan : ScanPlan) (set : ConditionSet)
    (projection : Projection) : ScanRequest :=
  { filters := plan.filters.map schema.attributeCondition
    sort := plan.sort.map fun order =>
      { order with property := schema.attributeName order.property }
    limit := set.limit
    select := projection }

end KeySchema

/-- **The request that carries out a plan.** -/
def AccessPlan.request (schema : KeySchema) (set : ConditionSet) (projection : Projection) :
    AccessPlan → StoreRequest
  | load hashValue rangeValue => .load (schema.loadRequest hashValue rangeValue set)
  | query plan => .query (schema.queryRequest plan set projection)
  | scan plan => .scan (schema.scanRequest plan set projection)

end AccessPlanner
