import AccessPlanner.Decimal.Binary64
import AccessPlanner.NameMap

/-!
# JSON values

`Json` is the value type, `Json.same` the equality of values, and `Json.field?` the access to a
field of an object.

A number is a whole number or a double, and which of the two it is belongs to the value: `1` and
`1.0` are different values, although they compare alike.  The fields of an object stand in
ascending order of their names, which `Json.ofFields` brings about.
-/

namespace AccessPlanner

/-- **A number:** a whole number, or a finite double.  Literals without point and exponent are
whole numbers as long as they fit in 64 bits, signed or unsigned. -/
inductive Number where
  | whole (value : Int)
  | double (value : Binary64)
  deriving DecidableEq

namespace Number

/-- Equality of numbers as values: of one kind, and of one value.  The two zeros among the
doubles are equal. -/
def same : Number → Number → Bool
  | whole a, whole b => a == b
  | double a, double b => a.signed == b.signed
  | _, _ => false

/-- The double nearest to a number, as signed units. -/
def units : Number → Int
  | whole value => Binary64.ofInt value
  | double value => value.signed

/-- The order of numbers is that of their nearest doubles, across both kinds. -/
def order (a b : Number) : Ordering := compare a.units b.units

end Number

/-- **A JSON value.** -/
inductive Json where
  | null
  | bool (value : Bool)
  | number (value : Number)
  | string (value : String)
  | array (items : List Json)
  | object (fields : List (String × Json))

namespace Json

/-! ### Equality of values -/

mutual

/-- **Equality of values.** Arrays are compared item by item, objects field by field. -/
def same : Json → Json → Bool
  | null, null => true
  | bool a, bool b => a == b
  | number a, number b => a.same b
  | string a, string b => a == b
  | array as, array bs => sameItems as bs
  | object as, object bs => sameFields as bs
  | _, _ => false

/-- Item by item equality of two arrays. -/
def sameItems : List Json → List Json → Bool
  | [], [] => true
  | a :: as, b :: bs => same a b && sameItems as bs
  | _, _ => false

/-- Field by field equality of two objects. -/
def sameFields : List (String × Json) → List (String × Json) → Bool
  | [], [] => true
  | (name, a) :: as, (other, b) :: bs => name == other && same a b && sameFields as bs
  | _, _ => false

end

instance : BEq Json := ⟨same⟩

/-! ### Parts -/

/-- Whether a value is `null`. -/
def isNull : Json → Bool
  | null => true
  | _ => false

/-- The field of an object under a name; other values have no fields. -/
def field? (name : String) : Json → Option Json
  | object fields => lookup? name fields
  | _ => none

/-! ### Making values -/

/-- The object with the given fields; of two fields of one name the later one counts. -/
def ofFields (fields : List (String × Json)) : Json :=
  object (fields.foldl (fun sorted field => insertAscending field.1 field.2 sorted) [])

/-- A natural number as a value. -/
def ofNat (value : Nat) : Json := number (.whole value)

/-- The value, or `null` where there is none. -/
def ofOption : Option Json → Json
  | some value => value
  | none => null

end Json

end AccessPlanner
