import AccessPlanner.Decimal.Shortest
import AccessPlanner.Json.Basic

/-!
# Compact JSON text

`Json.write` prints a value without blanks, the fields of an object in their order.  Only the
quotation mark, the backslash and control characters are escaped, so the text of a value never
holds a raw line break.
-/

namespace AccessPlanner

/-- **Doubles in JSON.** Written without an exponent from a hundred-thousandth up to below ten to
the sixteenth, and with one outside. -/
def Json.doubleLayout : DecimalLayout := ⟨-5, 15⟩

/-- The digits of a whole number, with a minus sign below zero. -/
def Json.writeWhole (value : Int) : List Char :=
  if value < 0 then '-' :: Nat.toDigits 10 value.natAbs else Nat.toDigits 10 value.natAbs

/-- The text of a number. -/
def Number.write : Number → List Char
  | .whole value => Json.writeWhole value
  | .double value => (Json.doubleLayout.write value).toList

namespace Json

/-! ### Strings -/

/-- How a character stands inside a quoted string. -/
def escape (c : Char) : List Char :=
  if c = '"' then ['\\', '"']
  else if c = '\\' then ['\\', '\\']
  else if c = '\n' then ['\\', 'n']
  else if c = '\r' then ['\\', 'r']
  else if c = '\t' then ['\\', 't']
  else if c = '\x08' then ['\\', 'b']
  else if c = '\x0c' then ['\\', 'f']
  else if c.toNat < 32 then
    ['\\', 'u', '0', '0', Nat.digitChar (c.toNat / 16), Nat.digitChar (c.toNat % 16)]
  else [c]

/-- A quoted string. -/
def quote (text : String) : List Char :=
  '"' :: (text.toList.flatMap escape ++ ['"'])

/-! ### Values -/

mutual

/-- The characters of a value. -/
def chars : Json → List Char
  | null => ['n', 'u', 'l', 'l']
  | bool true => ['t', 'r', 'u', 'e']
  | bool false => ['f', 'a', 'l', 's', 'e']
  | number value => value.write
  | string value => quote value
  | array [] => ['[', ']']
  | array (item :: items) => '[' :: (chars item ++ itemChars items)
  | object [] => ['{', '}']
  | object ((name, value) :: fields) =>
    '{' :: (quote name ++ ':' :: (chars value ++ fieldChars fields))

/-- The rest of an array after an item. -/
def itemChars : List Json → List Char
  | [] => [']']
  | item :: items => ',' :: (chars item ++ itemChars items)

/-- The rest of an object after a field. -/
def fieldChars : List (String × Json) → List Char
  | [] => ['}']
  | (name, value) :: fields =>
    ',' :: (quote name ++ ':' :: (chars value ++ fieldChars fields))

end

/-- The compact text of a value. -/
def write (value : Json) : String := String.ofList (chars value)

end Json

end AccessPlanner
