import AccessPlanner.Condition
import AccessPlanner.Json.Path
import AccessPlanner.Schema

/-!
# Conditions on stored documents

An `AttributeCondition` asks of an attribute what a `Condition` asks of a property.  `holds`
evaluates it on a document, and `Json.order?` is the comparison of values behind it.
-/

namespace AccessPlanner

/-! ### The order of values -/

/-- The order of two truth values: false before true. -/
def orderOfBools : Bool → Bool → Ordering
  | false, true => .lt
  | true, false => .gt
  | _, _ => .eq

/-- **The order of two values,** if they are comparable.  Numbers compare as doubles, texts by
their characters, `null` equals `null`; values of different kinds, arrays and objects do not
compare. -/
def Json.order? : Json → Json → Option Ordering
  | null, null => some .eq
  | number a, number b => some (a.order b)
  | string a, string b => some (compare a b)
  | bool a, bool b => some (orderOfBools a b)
  | _, _ => none

/-- Whether two values compare as equal. -/
def Json.equalTo (a b : Json) : Bool := a.order? b == some .eq

/-- Whether a value compares as at most another one. -/
def Json.atMost (a b : Json) : Bool := a.order? b == some .lt || a.order? b == some .eq

/-- Whether a value compares as at least another one. -/
def Json.atLeast (a b : Json) : Bool := a.order? b == some .gt || a.order? b == some .eq

/-! ### Texts and arrays -/

/-- Whether a list of characters stands somewhere inside another one. -/
def occursIn (needle : List Char) : List Char → Bool
  | [] => needle.isEmpty
  | c :: rest => needle.isPrefixOf (c :: rest) || occursIn needle rest

/-- Whether a text begins with another one. -/
def Json.beginsWith : Json → Json → Bool
  | string text, string start => start.toList.isPrefixOf text.toList
  | _, _ => false

/-- Whether a text contains another text, or an array contains an item of the same value. -/
def Json.contains : Json → Json → Bool
  | string text, string part => occursIn part.toList text.toList
  | array items, item => items.any fun other => other.same item
  | _, _ => false

/-! ### Attribute conditions -/

/-- **A condition on an attribute.** The attribute is a path into the document. -/
structure AttributeCondition where
  name : String
  operator : Operator
  values : List Json := []

/-- The condition that a condition on a property amounts to in the store. -/
def KeySchema.attributeCondition (schema : KeySchema) (condition : Condition) :
    AttributeCondition :=
  { name := schema.attributeName condition.property
    operator := condition.operator
    values := condition.values }

namespace AttributeCondition

/-- **Evaluation on a document.** A missing attribute counts as `null`.  Values of different
kinds never compare, so every comparison with such a value fails, except that it is not equal. -/
def holds (condition : AttributeCondition) (doc : Json) : Bool :=
  let actual := doc.resolve condition.name
  let first := Json.ofOption condition.values.head?
  match condition.operator with
  | .eq => actual.equalTo first
  | .ne => !actual.equalTo first
  | .lt => actual.order? first == some .lt
  | .le => actual.atMost first
  | .gt => actual.order? first == some .gt
  | .ge => actual.atLeast first
  | .between =>
    match condition.values with
    | [low, high] => actual.atLeast low && actual.atMost high
    | _ => false
  | .oneOf => condition.values.any actual.equalTo
  | .beginsWith => actual.beginsWith first
  | .contains => actual.contains first
  | .notContains => !actual.isNull && !actual.contains first
  | .null => actual.isNull
  | .notNull => !actual.isNull

/-- Whether all conditions of a list hold. -/
def allHold (conditions : List AttributeCondition) (doc : Json) : Bool :=
  conditions.all fun condition => condition.holds doc

end AttributeCondition

end AccessPlanner
