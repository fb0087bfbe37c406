import AccessPlanner.Operator

/-!
# Causes of failure

One type for each stage that can refuse its input, with the wording of each cause in one
function: conditions (`ConditionError`), schemas (`SchemaError`), planning (`PlanError`) and the
store (`StoreError`).
-/

namespace AccessPlanner

/-! ### Conditions -/

/-- **Why a condition is refused.** -/
inductive ConditionError where
  | arity (operator : Operator) (actual : Nat)
  | emptyProperty
  deriving DecidableEq

/-- The wording of a refused condition. -/
def ConditionError.message : ConditionError → String
  | arity operator actual =>
    "operator " ++ operator.name ++ " takes " ++ operator.arity.describe ++ " value(s), got "
      ++ toString actual
  | emptyProperty => "condition property name must not be empty"

/-! ### Schemas -/

/-- **Why a schema is refused.** -/
inductive SchemaError where
  | missingHashKey
  | rangeKeyIsHashKey (property : String)
  | emptyIndexName
  | duplicateIndex (name : String)
  | indexKeyConflict (index : String) (property : String)
  | compositeIdIsKey (property : String)
  deriving DecidableEq

/-- The wording of a refused schema. -/
def SchemaError.message : SchemaError → String
  | missingHashKey => "hash key property must not be empty"
  | rangeKeyIsHashKey property => "range key '" ++ property ++ "' is also the hash key"
  | emptyIndexName => "index name must not be empty"
  | duplicateIndex name => "index already exists: " ++ name
  | indexKeyConflict index property =>
    "index '" ++ index ++ "' uses '" ++ property ++ "' as both hash and range key"
  | compositeIdIsKey property =>
    "composite id property '" ++ property ++ "' is also a primary key property"

/-! ### Planning -/

/-- **Why no plan is made.** An unsupported pattern names the conditions that nothing serves, as
pairs of property and operator; a refused sort names the property that could be sorted by. -/
inductive PlanError where
  | invalidCondition (cause : ConditionError)
  | unsupportedAccessPattern (unserved : List (String × Operator))
  | illegalKeyOperator (property : String) (operator : Operator)
  | illegalSortTarget (property : String) (allowed : Option String)
  | ambiguousCompositeId (property : String) (operator : Operator)
  | nullKeyValue (property : String)
  | invalidCompositeId (property : String)
  deriving DecidableEq

/-- The wording of a planning failure. -/
def PlanError.message : PlanError → String
  | invalidCondition cause => cause.message
  | unsupportedAccessPattern unserved =>
    let described := unserved.map fun (property, operator) => property ++ " " ++ operator.name
    "unsupported access pattern: no key or index serves [" ++ ", ".intercalate described
      ++ "] and scanning is disabled"
  | illegalKeyOperator property operator =>
    "operator " ++ operator.name ++ " cannot be used as a key condition on '" ++ property ++ "'"
  | illegalSortTarget property (some allowed) =>
    "cannot sort by '" ++ property ++ "': only sorting by '" ++ allowed ++ "' is possible"
  | illegalSortTarget property none =>
    "cannot sort by '" ++ property ++ "': the chosen access path has no sort key"
  | ambiguousCompositeId property operator =>
    "operator " ++ operator.name ++ " is not supported on composite id '" ++ property
      ++ "' (only EQ, CONTAINS, BEGINS_WITH)"
  | nullKeyValue property => "null value for key property '" ++ property ++ "' is not supported"
  | invalidCompositeId property =>
    "composite id '" ++ property ++ "' has no hash or range key component"

/-! ### The store -/

/-- **Why the store refuses a request.** -/
inductive StoreError where
  | unknownIndex (name : String)
  deriving DecidableEq

/-- The wording of a refused request. -/
def StoreError.message : StoreError → String
  | unknownIndex name => "index not found: " ++ name

end AccessPlanner
