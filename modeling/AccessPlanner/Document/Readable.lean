import AccessPlanner.Error
import AccessPlanner.Json.Basic

/-!
# What documents are read from

A document is read from a JSON value or from JSON text, and both are looked at one level at a
time: `View` is that level, `Readable` the access to it, and `DocumentError` what can be wrong.

A text may be malformed anywhere, and a reader meets such a place only when it gets there.  So
the first thing that is wrong, in reading order, decides, whether it is a wrong type or a
malformed place.
-/

namespace AccessPlanner

/-- **Why a document is refused.** -/
inductive DocumentError where
  | malformed
  | invalidType
  | invalidValue
  | invalidLength
  | missingField (name : String)
  | duplicateField (name : String)
  | unknownVariant (name : String)
  | condition (cause : ConditionError)
  | schema (cause : SchemaError)
  deriving DecidableEq

/-- **The wording of a refused document.** What a condition or a schema is refused for is given in
full.  Of all other failures, which the parser puts into words of its own with a line and a column,
only the class and the name in question are given, in the words that the parser begins with; all
that is wrong with the form of a text is one class. -/
def DocumentError.message : DocumentError → String
  | malformed => "syntax"
  | invalidType => "invalid type"
  | invalidValue => "invalid value"
  | invalidLength => "invalid length"
  | missingField name => "missing field `" ++ name ++ "`"
  | duplicateField name => "duplicate field `" ++ name ++ "`"
  | unknownVariant name => "unknown variant `" ++ name ++ "`"
  | condition cause => cause.message
  | schema cause => cause.message

/-- **One level of a document.** The name of a field is missing where a text has no readable
name. -/
inductive View (α : Type) where
  | null
  | bool (value : Bool)
  | number (value : Number)
  | string (value : String)
  | array (items : List α)
  | object (fields : List (Option String × α))
  | malformed

/-- **What documents are read from.** -/
class Readable (α : Type) where
  /-- The outermost level. -/
  view : α → View α
  /-- The whole of it as a value. -/
  value : α → Except DocumentError Json
  /-- Passing over it, which looks at its form only. -/
  skip : α → Except DocumentError Unit
  /-- What is wrong with an array that goes on with this item after its last place. -/
  surplus : α → DocumentError
  /-- The name of a choice, and the check of what comes with it. -/
  choice : α → Except DocumentError (String × Except DocumentError Unit)

/-! ### Values -/

namespace Json

/-- The outermost level of a value. -/
def view : Json → View Json
  | null => .null
  | bool value => .bool value
  | number value => .number value
  | string value => .string value
  | array items => .array items
  | object fields => .object (fields.map fun field => (some field.1, field.2))

/-- **A choice in a value** is its name, or an object with the name as its one field and `null`
under it. -/
def choice : Json → Except DocumentError (String × Except DocumentError Unit)
  | string name => .ok (name, .ok ())
  | object [(name, null)] => .ok (name, .ok ())
  | object [(name, _)] => .ok (name, .error .invalidType)
  | object _ => .error .invalidValue
  | _ => .error .invalidType

end Json

instance : Readable Json where
  view := Json.view
  value := .ok
  skip _ := .ok ()
  surplus _ := .invalidLength
  choice := Json.choice

end AccessPlanner
