import AccessPlanner.Criteria.IndexMatch
import AccessPlanner.Criteria.Predicates

/-!
# Plans

An `AccessPlan` is one of three access paths: loading one item by its primary key, querying the
primary key or an index, and scanning everything.  `plan` chooses by rules in a fixed order; the
first rule that applies decides, with a plan or with a refusal.
-/

namespace AccessPlanner

/-! ### Access paths -/

/-- **A query** of the primary key, or of the index that is named. -/
structure QueryPlan where
  indexName : Option String
  hash : Condition
  range : Option Condition
  filters : List Condition
  sort : Option SortOrder

/-- **A scan** of everything. -/
structure ScanPlan where
  filters : List Condition
  sort : Option SortOrder

/-- **An access path.** -/
inductive AccessPlan where
  | load (hashValue : Json) (rangeValue : Option Json)
  | query (plan : QueryPlan)
  | scan (plan : ScanPlan)

namespace AccessPlan

/-- The name of the access path. -/
def mode : AccessPlan → String
  | load _ _ => "load"
  | query _ => "query"
  | scan _ => "scan"

/-- The index that is queried, if one is. -/
def indexName? : AccessPlan → Option String
  | query plan => plan.indexName
  | _ => none

/-- The conditions that are checked on each item. -/
def filters : AccessPlan → List Condition
  | load _ _ => []
  | query plan => plan.filters
  | scan plan => plan.filters

end AccessPlan

/-! ### Rules -/

/-- A query delivers only the order of the range property that it addresses. -/
def checkSort (sort : Option SortOrder) (rangeKey : Option String) : Except PlanError Unit :=
  match sort with
  | none => .ok ()
  | some order =>
    if rangeKey = some order.property then .ok ()
    else .error (.illegalSortTarget order.property rangeKey)

namespace Criteria

/-- The equality of the hash property of the primary key with its value. -/
def hashCondition (schema : KeySchema) (criteria : Criteria) : Condition :=
  .equals schema.hashKey (.ofOption criteria.hashValue)

/-- **Load:** the whole primary key is bound and nothing else is asked.  An order is irrelevant
for one item. -/
def loadRule? (schema : KeySchema) (criteria : Criteria) : Option AccessPlan :=
  if criteria.isLoadable schema then
    some (.load (.ofOption criteria.hashValue) criteria.rangeValue)
  else none

/-- **Query by hash:** only the hash property is bound. -/
def hashRule? (schema : KeySchema) (criteria : Criteria) (sort : Option SortOrder) :
    Option (Except PlanError AccessPlan) :=
  if criteria.isHashOnly then
    some do
      checkSort sort schema.rangeKey
      return .query
        { indexName := none, hash := criteria.hashCondition schema, range := none, filters := [],
          sort }
  else none

/-- What a range property is addressed through together with the hash property of the primary
key: the primary key itself, or the first index with both. -/
def rangeAddress? (schema : KeySchema) (order : IndexOrder) (property : String) :
    Option (Option String) :=
  if schema.isRangeKey property then some none
  else
    let shared := (order.arrange schema.indexes).find? fun index =>
      index.hashKey == schema.hashKey && index.rangeKey == some property
    shared.map fun index => some index.name

/-- **Query by hash and range:** the hash property is bound, and the only other condition is on a
range property that goes with it. -/
def rangeRule? (schema : KeySchema) (order : IndexOrder) (criteria : Criteria)
    (sort : Option SortOrder) : Option (Except PlanError AccessPlan) :=
  if criteria.hasHash && criteria.isSingleOnRange schema then
    match criteria.singleResidual? with
    | none => none
    | some condition =>
      (rangeAddress? schema order condition.property).map fun indexName => do
        if !condition.operator.isKeyOperator then
          throw (.illegalKeyOperator condition.property condition.operator)
        checkSort sort (some condition.property)
        return .query
          { indexName, hash := criteria.hashCondition schema, range := some condition,
            filters := [], sort }
  else none

/-- **Query of an index:** some index has an equality on its hash property. -/
def indexRule? (schema : KeySchema) (order : IndexOrder) (criteria : Criteria)
    (sort : Option SortOrder) : Option (Except PlanError AccessPlan) :=
  (criteria.selectIndex? schema order sort).map fun found => do
    checkSort sort found.index.rangeKey
    return .query
      { indexName := some found.index.name
        hash := found.hash.condition
        range := found.range.map fun key => key.condition
        filters := criteria.filtersAfter schema found
        sort }

/-- **Scan:** everything else, if scans are allowed. -/
def scanRule (schema : KeySchema) (config : PlannerConfig) (criteria : Criteria)
    (sort : Option SortOrder) (projection : Projection) : Except PlanError AccessPlan :=
  let filters := criteria.conditions schema
  if config.allowsScan projection then .ok (.scan { filters, sort })
  else
    .error <| .unsupportedAccessPattern <|
      filters.map fun condition => (condition.property, condition.operator)

/-- **The plan for criteria.** The projection matters for scans only, which are allowed for items
and for counts separately. -/
def plan (schema : KeySchema) (config : PlannerConfig) (criteria : Criteria)
    (sort : Option SortOrder) (projection : Projection) : Except PlanError AccessPlan :=
  match criteria.loadRule? schema with
  | some plan => .ok plan
  | none =>
    match criteria.hashRule? schema sort with
    | some result => result
    | none =>
      match criteria.rangeRule? schema config.indexOrder sort with
      | some result => result
      | none =>
        match criteria.indexRule? schema config.indexOrder sort with
        | some result => result
        | none => criteria.scanRule schema config sort projection

end Criteria

/-! ### Planning -/

/-- **The plan for a condition set.** A set that was given a refused condition is refused; then
its conditions are routed, and the criteria planned. -/
def ConditionSet.plan (keys : EntityKeys) (config : PlannerConfig) (set : ConditionSet)
    (projection : Projection) : Except PlanError AccessPlan := do
  set.validate.mapError .invalidCondition
  let criteria ← Criteria.ofConditions keys set.conditions
  criteria.plan keys.schema config set.sort projection

end AccessPlanner
