/-!
# Operators

What may be asked of a property is one of thirteen operators.  Each `Operator` has a spelling and
takes a certain number of values, and only some of them may stand in a key condition or on a
composite id.
-/

namespace AccessPlanner

/-- **How many values an operator takes.** -/
inductive Arity where
  | exactly (count : Nat)
  | atLeastOne
  deriving DecidableEq

namespace Arity

/-- Whether a number of values is right. -/
def admits : Arity → Nat → Bool
  | exactly count, actual => actual == count
  | atLeastOne, actual => decide (1 ≤ actual)

/-- The arity in words. -/
def describe : Arity → String
  | exactly count => toString count
  | atLeastOne => "at least 1"

end Arity

/-- **A comparison operator,** as the store names it. -/
inductive Operator where
  | eq
  | ne
  | oneOf
  | le
  | lt
  | ge
  | gt
  | between
  | notNull
  | null
  | contains
  | notContains
  | beginsWith
  deriving DecidableEq

namespace Operator

/-- Every operator. -/
def all : List Operator :=
  [eq, ne, oneOf, le, lt, ge, gt, between, notNull, null, contains, notContains, beginsWith]

/-- No operator is missing from the list. -/
theorem mem_all (operator : Operator) : operator ∈ all := by
  cases operator <;> decide

/-- The spelling in documents and messages. -/
def name : Operator → String
  | eq => "EQ"
  | ne => "NE"
  | oneOf => "IN"
  | le => "LE"
  | lt => "LT"
  | ge => "GE"
  | gt => "GT"
  | between => "BETWEEN"
  | notNull => "NOT_NULL"
  | null => "NULL"
  | contains => "CONTAINS"
  | notContains => "NOT_CONTAINS"
  | beginsWith => "BEGINS_WITH"

/-- Different operators are spelled differently. -/
theorem name_injective {a b : Operator} (h : a.name = b.name) : a = b := by
  revert h
  cases a <;> cases b <;> decide

/-- The number of values an operator takes. -/
def arity : Operator → Arity
  | null | notNull => .exactly 0
  | between => .exactly 2
  | oneOf => .atLeastOne
  | _ => .exactly 1

/-- Whether a store takes the operator in a range key condition. -/
def isKeyOperator : Operator → Bool
  | eq | lt | le | gt | ge | beginsWith | between => true
  | _ => false

/-- Whether the operator carries over from a composite id to its components. -/
def isCompositeIdOperator : Operator → Bool
  | eq | contains | beginsWith => true
  | _ => false

end Operator

end AccessPlanner
