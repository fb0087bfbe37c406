import AccessPlanner.Store

/-!
# Queries on a store

A `Repository` is an entity type, a configuration and a store.  It answers condition sets: `find`
gives the items, `count` their number, and `hasItems` whether there are any.
-/

namespace AccessPlanner

/-- **Why a query has no answer:** it could not be planned, or the store refused the request. -/
inductive QueryError where
  | plan (cause : PlanError)
  | store (cause : StoreError)
  deriving DecidableEq

/-- The wording of a query without an answer. -/
def QueryError.message : QueryError → String
  | plan cause => cause.message
  | store cause => "store error: " ++ cause.message

/-- The plan of a condition set and the request that carries it out. -/
def EntityKeys.prepare (keys : EntityKeys) (config : PlannerConfig) (set : ConditionSet)
    (projection : Projection) : Except PlanError (AccessPlan × StoreRequest) := do
  let plan ← set.plan keys config projection
  return (plan, plan.request keys.schema set projection)

/-- **A store with the entity type it is asked about.** -/
structure Repository where
  keys : EntityKeys
  config : PlannerConfig
  store : MemoryStore

namespace Repository

/-- Plan and request of a condition set. -/
def prepare (repository : Repository) (set : ConditionSet) (projection : Projection) :
    Except QueryError (AccessPlan × StoreRequest) :=
  (repository.keys.prepare repository.config set projection).mapError .plan

/-- **The items of a condition set.** A load gives one item or none, whatever the limit. -/
def find (repository : Repository) (set : ConditionSet) : Except QueryError Page := do
  match (← repository.prepare set .items).2 with
  | .load request => return ⟨(repository.store.load request).toList, none⟩
  | .query request => (repository.store.query request).mapError .store
  | .scan request => return repository.store.scan request

/-- **The number of items of a condition set.** -/
def count (repository : Repository) (set : ConditionSet) : Except QueryError Nat := do
  match (← repository.prepare set .count).2 with
  | .load request => return (repository.store.load request).toList.length
  | .query request => (repository.store.countQuery request).mapError .store
  | .scan request => return repository.store.countScan request

/-- Whether a condition set has items. -/
def hasItems (repository : Repository) (set : ConditionSet) : Except QueryError Bool := do
  return 0 < (← repository.count set)

end Repository

end AccessPlanner
