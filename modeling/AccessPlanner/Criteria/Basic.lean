import AccessPlanner.Config
import AccessPlanner.Schema

/-!
# Criteria

Conditions are routed to the roles they can play for a key.  An equality on the hash or the range
property of the primary key binds that property; everything else is residual, grouped by property
in the order in which the properties came up.

Each routing gives an `Outcome`: the criteria that were reached and, if it was refused, the
cause.  What was routed before the refusal stays.
-/

namespace AccessPlanner

/-- **The conditions of a query by their roles:** the value of the hash property, the value of
the range property, and the residual conditions by property. -/
structure Criteria where
  hashValue : Option Json := none
  rangeValue : Option Json := none
  residual : List (String × List Condition) := []

namespace Criteria

/-- The criteria without conditions. -/
def empty : Criteria := {}

/-- **The result of routing a condition.** -/
structure Outcome where
  criteria : Criteria
  error : Option PlanError := none

namespace Outcome

/-- A further routing, unless there was a refusal. -/
def andThen (outcome : Outcome) (route : Criteria → Outcome) : Outcome :=
  match outcome.error with
  | some _ => outcome
  | none => route outcome.criteria

/-- The criteria, or the refusal alone. -/
def toExcept (outcome : Outcome) : Except PlanError Criteria :=
  match outcome.error with
  | some error => .error error
  | none => .ok outcome.criteria

end Outcome

/-! ### Residual conditions -/

/-- A list of groups with one more condition: at the end of the group of its property, or in a
new group at the end. -/
def addToGroups (condition : Condition) :
    List (String × List Condition) → List (String × List Condition)
  | [] => [(condition.property, [condition])]
  | (property, conditions) :: groups =>
    if property = condition.property then (property, conditions ++ [condition]) :: groups
    else (property, conditions) :: addToGroups condition groups

/-- The criteria with one more residual condition. -/
def addResidual (criteria : Criteria) (condition : Condition) : Criteria :=
  { criteria with residual := addToGroups condition criteria.residual }

/-- The residual conditions on a property. -/
def residualFor (criteria : Criteria) (property : String) : List Condition :=
  (lookup? property criteria.residual).getD []

/-- All residual conditions, group by group. -/
def residualConditions (criteria : Criteria) : List Condition :=
  criteria.residual.flatMap fun group => group.2

/-! ### Equalities -/

/-- The equality of a property with a value, where the property is no composite id.  A key
property that is not bound yet is bound; the value it is bound to says nothing new; any other
value is a residual condition. -/
def bindProperty (keys : EntityKeys) (criteria : Criteria) (property : String) (value : Json) :
    Outcome :=
  let isHash := keys.schema.isHashKey property
  let isRange := keys.schema.isRangeKey property
  let residual : Outcome := ⟨criteria.addResidual (.equals property value), none⟩
  if value.isNull && (isHash || isRange) then ⟨criteria, some (.nullKeyValue property)⟩
  else if isHash then
    match criteria.hashValue with
    | none => ⟨{ criteria with hashValue := some value }, none⟩
    | some bound => if bound.same value then ⟨criteria, none⟩ else residual
  else if isRange then
    match criteria.rangeValue with
    | none => ⟨{ criteria with rangeValue := some value }, none⟩
    | some bound => if bound.same value then ⟨criteria, none⟩ else residual
  else residual

/-- The equality of a key property with a component, if there is one. -/
def bindComponent (keys : EntityKeys) (criteria : Criteria) :
    Option (String × Json) → Outcome
  | some (property, value) => criteria.bindProperty keys property value
  | none => ⟨criteria, none⟩

/-- The components of a composite id with the key properties they are for.  A component without
a key property counts as missing. -/
def keyComponents (keys : EntityKeys) (value : Json) :
    Option (String × Json) × Option (String × Json) :=
  let parts := keys.decompose value
  (parts.hash.map (keys.schema.hashKey, ·),
    keys.schema.rangeKey.bind fun property => parts.range.map (property, ·))

/-- **The equality of a property with a value.** A composite id stands for the equalities of the
key properties with its components, the hash property first. -/
def bind (keys : EntityKeys) (criteria : Criteria) (property : String) (value : Json) : Outcome :=
  if keys.schema.isCompositeId property then
    if value.isNull then ⟨criteria, some (.nullKeyValue property)⟩
    else
      match keyComponents keys value with
      | (none, none) => ⟨criteria, some (.invalidCompositeId property)⟩
      | (hash, range) =>
        (criteria.bindComponent keys hash).andThen fun reached => reached.bindComponent keys range
  else criteria.bindProperty keys property value

/-! ### Conditions -/

/-- The conditions on the key properties that a condition on a composite id stands for. -/
def componentConditions (keys : EntityKeys) (condition : Condition) (value : Json) :
    Except PlanError (List Condition) :=
  let (hash, range) := keyComponents keys value
  (hash.toList ++ range.toList).mapM fun (property, component) =>
    (Condition.make property condition.operator [component]).mapError fun _ =>
      .ambiguousCompositeId condition.property condition.operator

/-- A condition other than an equality on a composite id.  Nothing is routed before all
components are known. -/
def addCompositeId (keys : EntityKeys) (criteria : Criteria) (condition : Condition) : Outcome :=
  match condition.values.head? with
  | none => ⟨criteria, none⟩
  | some value =>
    if value.isNull then ⟨criteria, some (.nullKeyValue condition.property)⟩
    else
      match componentConditions keys condition value with
      | .error error => ⟨criteria, some error⟩
      | .ok [] => ⟨criteria, some (.invalidCompositeId condition.property)⟩
      | .ok derived => ⟨derived.foldl addResidual criteria, none⟩

/-- **Routing a condition:** equalities are bound, conditions on composite ids go to the key
properties, and all others are residual. -/
def add (keys : EntityKeys) (criteria : Criteria) (condition : Condition) : Outcome :=
  match condition.equality? with
  | some value => criteria.bind keys condition.property value
  | none =>
    if keys.schema.isCompositeId condition.property then
      if condition.operator.isCompositeIdOperator then criteria.addCompositeId keys condition
      else
        ⟨criteria, some (.ambiguousCompositeId condition.property condition.operator)⟩
    else ⟨criteria.addResidual condition, none⟩

/-- Routing a list of conditions, up to the first refusal. -/
def addAll (keys : EntityKeys) (criteria : Criteria) (conditions : List Condition) :
    Except PlanError Criteria :=
  conditions.foldlM (fun reached condition => (reached.add keys condition).toExcept) criteria

/-- The criteria of a list of conditions. -/
def ofConditions (keys : EntityKeys) (conditions : List Condition) : Except PlanError Criteria :=
  empty.addAll keys conditions

/-! ### Bound properties -/

/-- The value of the hash property with its property, if it is bound. -/
def boundHash? (schema : KeySchema) (criteria : Criteria) : Option (String × Json) :=
  criteria.hashValue.map (schema.hashKey, ·)

/-- The value of the range property with its property, if it is bound. -/
def boundRange? (schema : KeySchema) (criteria : Criteria) : Option (String × Json) :=
  schema.rangeKey.bind fun property => criteria.rangeValue.map (property, ·)

/-- The bound properties with their values, the hash property first. -/
def bound (schema : KeySchema) (criteria : Criteria) : List (String × Json) :=
  (criteria.boundHash? schema).toList ++ (criteria.boundRange? schema).toList

/-- The equalities of the bound properties. -/
def boundConditions (schema : KeySchema) (criteria : Criteria) : List Condition :=
  (criteria.bound schema).map fun (property, value) => .equals property value

/-- The properties with a condition: residual ones, then bound ones. -/
def properties (schema : KeySchema) (criteria : Criteria) : List String :=
  criteria.residual.map (·.1) ++ (criteria.bound schema).map (·.1)

/-- The value that a property is bound to. -/
def boundValue? (schema : KeySchema) (criteria : Criteria) (property : String) : Option Json :=
  if schema.isHashKey property then criteria.hashValue
  else if schema.isRangeKey property then criteria.rangeValue
  else none

/-- **All conditions that the criteria hold:** bound ones, then residual ones. -/
def conditions (schema : KeySchema) (criteria : Criteria) : List Condition :=
  criteria.boundConditions schema ++ criteria.residualConditions

end Criteria

end AccessPlanner
