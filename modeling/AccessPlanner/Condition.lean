import AccessPlanner.Error
import AccessPlanner.Json.Basic

/-!
# Conditions

`Condition` is what a caller asks of one property; `Condition.make` admits the well-formed ones.
`ConditionSet` is all that is asked in one query, with the order, the limit and the consistency
that the caller wants.
-/

namespace AccessPlanner

/-- **A condition on a property:** the property, an operator, and as many values as the operator
takes. -/
structure Condition where
  property : String
  operator : Operator
  values : List Json
  admitted : operator.arity.admits values.length = true

namespace Condition

/-- Admission of a condition.  The property must have a name, and the operator must take that
many values; the name is looked at first. -/
def make (property : String) (operator : Operator) (values : List Json) :
    Except ConditionError Condition :=
  if property = "" then .error .emptyProperty
  else if h : operator.arity.admits values.length then .ok ⟨property, operator, values, h⟩
  else .error (.arity operator values.length)

/-- A condition with a name is admitted as it is. -/
theorem make_of_ne_empty {condition : Condition} (h : condition.property ≠ "") :
    make condition.property condition.operator condition.values = .ok condition := by
  rw [make, if_neg h, dif_pos condition.admitted]

/-- What is admitted has a name. -/
theorem property_ne_empty_of_make {property : String} {operator : Operator} {values : List Json}
    {condition : Condition} (h : make property operator values = .ok condition) :
    condition.property ≠ "" := by
  unfold make at h
  split at h
  next => cases h
  next hne =>
    split at h
    next =>
      obtain rfl := Except.ok.inj h
      exact hne
    next => cases h

/-- The equality of a key property with a value.  A key property is named by the schema, which
has rules of its own for names, so the name is not looked at. -/
def equals (property : String) (value : Json) : Condition := ⟨property, .eq, [value], rfl⟩

/-- The value of an equality. -/
def equality? (condition : Condition) : Option Json :=
  if condition.operator = .eq then condition.values.head? else none

/-- An equality has a value, and no other condition has one. -/
theorem isSome_equality?_iff {condition : Condition} :
    condition.equality?.isSome ↔ condition.operator = .eq := by
  obtain ⟨property, operator, values, admitted⟩ := condition
  unfold equality?
  split
  next h =>
    obtain rfl : operator = .eq := h
    cases values with
    | nil => exact absurd admitted (by decide)
    | cons value rest => simp
  next h => simp [h]

end Condition

/-! ### Order and projection -/

/-- The direction of an order. -/
inductive Direction where
  | ascending
  | descending
  deriving DecidableEq

/-- **A requested order** on one property. -/
structure SortOrder where
  property : String
  direction : Direction := .ascending
  deriving DecidableEq

/-- **What a query returns:** the items, or their number. -/
inductive Projection where
  | items
  | count
  deriving DecidableEq

/-! ### Condition sets -/

/-- **The conditions of one query.** A set that is built step by step keeps the first condition
that was refused on the way; such a set is not planned. -/
structure ConditionSet where
  conditions : List Condition := []
  sort : Option SortOrder := none
  limit : Option Nat := none
  consistentRead : Bool := false
  rejected : Option ConditionError := none

namespace ConditionSet

/-- The set without conditions. -/
def empty : ConditionSet := {}

/-- The set with one more condition. -/
def add (set : ConditionSet) (condition : Condition) : ConditionSet :=
  { set with conditions := set.conditions ++ [condition] }

/-- The set with one more condition if it is admitted; a refusal is kept unless there is an
earlier one. -/
def push (set : ConditionSet) (property : String) (operator : Operator) (values : List Json) :
    ConditionSet :=
  match Condition.make property operator values with
  | .ok condition => set.add condition
  | .error cause => { set with rejected := some (set.rejected.getD cause) }

/-- The set with a comparison of a property with one value. -/
def compare (set : ConditionSet) (property : String) (operator : Operator) (value : Json) :
    ConditionSet :=
  set.push property operator [value]

/-- The set with a range of values for a property, both ends included. -/
def between (set : ConditionSet) (property : String) (low high : Json) : ConditionSet :=
  set.push property .between [low, high]

/-- The set with a list of values for a property; an empty list is refused at once. -/
def oneOf (set : ConditionSet) (property : String) (values : List Json) :
    Except ConditionError ConditionSet :=
  (Condition.make property .oneOf values).map set.add

/-- The set with an order, in place of an earlier one. -/
def sortBy (set : ConditionSet) (order : SortOrder) : ConditionSet :=
  { set with sort := some order }

/-- The set with a limit, in place of an earlier one. -/
def limitTo (set : ConditionSet) (count : Nat) : ConditionSet := { set with limit := some count }

/-- The set with or without consistent reads. -/
def readConsistently (set : ConditionSet) (consistent : Bool) : ConditionSet :=
  { set with consistentRead := consistent }

/-- The first refused condition, if there is one. -/
def validate (set : ConditionSet) : Except ConditionError Unit :=
  match set.rejected with
  | some cause => .error cause
  | none => .ok ()

end ConditionSet

end AccessPlanner
