import AccessPlanner.Criteria.Basic

/-!
# What criteria are good for

Questions about criteria whose answers suggest an access path: which keys are specified, whether
a load or a query of the primary key would do, and whether an index has conditions on its keys.
-/

namespace AccessPlanner

namespace Criteria

/-! ### Keys -/

/-- Whether the hash property is bound. -/
def hasHash (criteria : Criteria) : Bool := criteria.hashValue.isSome

/-- Whether the range property is bound. -/
def hasRange (criteria : Criteria) : Bool := criteria.rangeValue.isSome

/-- Whether there are residual conditions. -/
def hasResidual (criteria : Criteria) : Bool := !criteria.residual.isEmpty

/-- Whether the hash property is bound and nothing else is asked. -/
def isHashOnly (criteria : Criteria) : Bool :=
  criteria.hasHash && !criteria.hasRange && !criteria.hasResidual

/-- **Whether a load will do:** the whole primary key is bound and nothing else is asked. -/
def isLoadable (schema : KeySchema) (criteria : Criteria) : Bool :=
  criteria.hasHash && !criteria.hasResidual && (schema.rangeKey.isNone || criteria.hasRange)

/-! ### Residual conditions -/

/-- The one residual condition, if there is exactly one. -/
def singleResidual? (criteria : Criteria) : Option Condition :=
  match criteria.residual with
  | [(_, [condition])] => some condition
  | _ => none

/-- Whether a property is the range property of the primary key or of an index. -/
def isSomeRangeKey (schema : KeySchema) (property : String) : Bool :=
  schema.isRangeKey property || schema.isIndexRangeKey property

/-- Whether exactly one residual condition is there, on a range property, and the range property
of the primary key is not bound. -/
def isSingleOnRange (schema : KeySchema) (criteria : Criteria) : Bool :=
  !criteria.hasRange &&
    match criteria.residual with
    | [(property, [_])] => isSomeRangeKey schema property
    | _ => false

/-- Whether all residual conditions on range properties have key operators. -/
def areKeyOperatorsPermitted (schema : KeySchema) (criteria : Criteria) : Bool :=
  criteria.residual.all fun group =>
    !isSomeRangeKey schema group.1 ||
      group.2.all fun condition => condition.operator.isKeyOperator

/-- **Whether a query of the primary key will do:** the hash property is bound, and nothing else
is asked or one condition that a range key can serve. -/
def isQueryable (schema : KeySchema) (criteria : Criteria) : Bool :=
  criteria.isHashOnly ||
    (criteria.hasHash && criteria.isSingleOnRange schema
      && criteria.areKeyOperatorsPermitted schema)

/-! ### Indexes -/

/-- Whether the hash property of some index is bound or has a residual equality. -/
def hasIndexHashEquality (schema : KeySchema) (criteria : Criteria) : Bool :=
  ((criteria.bound schema).map (·.1)).any schema.isIndexHashKey ||
    criteria.residual.any fun group =>
      (group.2.any fun condition => condition.operator == .eq) && schema.isIndexHashKey group.1

/-- Whether the range property of some index is bound or has a residual condition. -/
def hasIndexRangeCondition (schema : KeySchema) (criteria : Criteria) : Bool :=
  (criteria.properties schema).any schema.isIndexRangeKey

end Criteria

end AccessPlanner
