import AccessPlanner.Document.Readable
import AccessPlanner.Json.Lexeme

/-!
# JSON text as a source of documents

`Source` is the tree of a text in written order, down to the first malformed place; fields of one
name may stand in it twice.  `Source.ofBytes` makes it, and the instance of `Readable` says how a
document is read from it.

A place may be malformed for a reader although its form is right: a number out of range, half of
a character, or a container too deep inside others.  Passing over such a place is fine.
-/

namespace AccessPlanner

/-- **The tree of a text.** A malformed place ends the text, unless its form is right. -/
inductive Source where
  | null
  | bool (value : Bool)
  | number (value : Number)
  | string (value : String)
  | array (items : List Source)
  | object (fields : List (Source × Source))
  | malformed (skippable : Bool)

namespace Source

/-! ### Passing over a source -/

mutual

/-- Whether the form is right throughout. -/
def isSkippable : Source → Bool
  | array items => itemsSkippable items
  | object fields => fieldsSkippable fields
  | malformed skippable => skippable
  | _ => true

/-- Whether the form of all items is right. -/
def itemsSkippable : List Source → Bool
  | [] => true
  | item :: items => isSkippable item && itemsSkippable items

/-- Whether the form of all fields is right. -/
def fieldsSkippable : List (Source × Source) → Bool
  | [] => true
  | (name, value) :: fields => isSkippable name && isSkippable value && fieldsSkippable fields

end

/-- The refusal of a source whose form is wrong somewhere. -/
def skip (source : Source) : Except DocumentError Unit :=
  if source.isSkippable then .ok () else .error .malformed

/-! ### The form of a text -/

/-- A text without the blanks at its head. -/
def dropBlanks : List UInt8 → List UInt8
  | [] => []
  | byte :: rest =>
    if byte = 32 ∨ byte = 10 ∨ byte = 13 ∨ byte = 9 then dropBlanks rest else byte :: rest

/-- The place where a text breaks off. -/
def broken : Source := malformed false

/-- A source, and the text after it; no text after a broken place. -/
abbrev Scan (α : Type) := α × Option (List UInt8)

/-- A word of the language: its value if the text goes on with the rest of the word. -/
def word (value : Source) (expected text : List UInt8) : Scan Source :=
  if expected.isPrefixOf text then (value, some (text.drop expected.length)) else (broken, none)

/-- A lexeme as a source. -/
def ofLexeme {α : Type} (make : α → Source) : Lexeme α → Scan Source
  | none => (broken, none)
  | some (none, rest) => (malformed true, some rest)
  | some (some value, rest) => (make value, some rest)

/-- A container as it is read at a depth: beyond the last level only its form counts. -/
def atDepth (levels : Nat) : Scan Source → Scan Source
  | (source, rest) => if levels = 0 then (malformed source.isSkippable, rest) else (source, rest)

mutual

/-- **The value at the head of a text.** `levels` is the number of containers that may still be
opened inside each other, and `fuel` bounds the number of steps. -/
def scanValue : Nat → Nat → List UInt8 → Scan Source
  | 0, _, _ => (broken, none)
  | fuel + 1, levels, text =>
    match dropBlanks text with
    | 110 :: rest => word null [117, 108, 108] rest
    | 116 :: rest => word (bool true) [114, 117, 101] rest
    | 102 :: rest => word (bool false) [97, 108, 115, 101] rest
    | 34 :: rest => ofLexeme string (Lexeme.string rest)
    | 91 :: rest =>
      let (items, rest) := scanItems fuel (levels - 1) true rest
      atDepth levels (array items, rest)
    | 123 :: rest =>
      let (fields, rest) := scanFields fuel (levels - 1) true rest
      atDepth levels (object fields, rest)
    | text => ofLexeme number (Lexeme.number text)

/-- The items of an array up to its end, from its first item or from the comma before another
one. -/
def scanItems : Nat → Nat → Bool → List UInt8 → Scan (List Source)
  | 0, _, _, _ => ([broken], none)
  | fuel + 1, levels, isFirst, text =>
    match dropBlanks text, isFirst with
    | 93 :: rest, _ => ([], some rest)
    | 44 :: rest, false => scanItem fuel levels rest
    | text, true => scanItem fuel levels text
    | _, false => ([broken], none)

/-- One item, and those after it. -/
def scanItem : Nat → Nat → List UInt8 → Scan (List Source)
  | 0, _, _ => ([broken], none)
  | fuel + 1, levels, text =>
    match scanValue fuel levels text with
    | (item, none) => ([item], none)
    | (item, some rest) =>
      let (items, rest) := scanItems fuel levels false rest
      (item :: items, rest)

/-- The fields of an object up to its end, from its first field or from the comma before another
one. -/
def scanFields : Nat → Nat → Bool → List UInt8 → Scan (List (Source × Source))
  | 0, _, _, _ => ([(broken, broken)], none)
  | fuel + 1, levels, isFirst, text =>
    match dropBlanks text, isFirst with
    | 125 :: rest, _ => ([], some rest)
    | 44 :: rest, false => scanField fuel levels rest
    | text, true => scanField fuel levels text
    | _, false => ([(broken, broken)], none)

/-- One field, and those after it.  A name that is not a string ends the text, and so does a name
without a colon. -/
def scanField : Nat → Nat → List UInt8 → Scan (List (Source × Source))
  | 0, _, _ => ([(broken, broken)], none)
  | fuel + 1, levels, text =>
    match scanValue fuel levels text, dropBlanks text with
    | (name, some rest), 34 :: _ =>
      match dropBlanks rest with
      | 58 :: rest =>
        match scanValue fuel levels rest with
        | (value, none) => ([(name, value)], none)
        | (value, some rest) =>
          let (fields, rest) := scanFields fuel levels false rest
          ((name, value) :: fields, rest)
      | _ => ([(name, broken)], none)
    | (name, _), _ => ([(name, broken)], none)

end

/-- **The number of containers that may stand inside each other.** -/
def deepest : Nat := 127

/-- **The tree of a text,** and whether nothing but blanks comes after it. -/
def ofBytes (bytes : List UInt8) : Source × Bool :=
  match scanValue (4 * bytes.length + 4) deepest bytes with
  | (source, some rest) => (source, (dropBlanks rest).isEmpty)
  | (source, none) => (source, false)

/-! ### Reading -/

mutual

/-- The whole of a source as a value; of two fields of one name the later one counts. -/
def toJson? : Source → Option Json
  | null => some .null
  | bool value => some (.bool value)
  | number value => some (.number value)
  | string value => some (.string value)
  | array items => (itemsToJson? items).map .array
  | object fields => (fieldsToJson? fields).map .ofFields
  | malformed _ => none

/-- All items as values. -/
def itemsToJson? : List Source → Option (List Json)
  | [] => some []
  | item :: items =>
    match toJson? item, itemsToJson? items with
    | some value, some values => some (value :: values)
    | _, _ => none

/-- All fields with their values. -/
def fieldsToJson? : List (Source × Source) → Option (List (String × Json))
  | [] => some []
  | (string name, value) :: fields =>
    match toJson? value, fieldsToJson? fields with
    | some value, some fields => some ((name, value) :: fields)
    | _, _ => none
  | _ => none

end

/-- The readable name of a field. -/
def name? : Source → Option String
  | string name => some name
  | _ => none

/-- The outermost level of a source. -/
def view : Source → View Source
  | null => .null
  | bool value => .bool value
  | number value => .number value
  | string value => .string value
  | array items => .array items
  | object fields => .object (fields.map fun field => (field.1.name?, field.2))
  | malformed _ => .malformed

/-- Refusal of anything but `null`. -/
def checkNull : Source → Except DocumentError Unit
  | null => .ok ()
  | malformed _ => .error .malformed
  | _ => .error .invalidType

/-- **A choice in a text** is its name, or an object that begins with the name and `null` and has
nothing after it. -/
def choice : Source → Except DocumentError (String × Except DocumentError Unit)
  | string name => .ok (name, .ok ())
  | object ((string name, value) :: rest) =>
    .ok (name, checkNull value >>= fun _ => if rest.isEmpty then .ok () else .error .malformed)
  | _ => .error .malformed

end Source

instance : Readable Source where
  view := Source.view
  value source :=
    match source.toJson? with
    | some value => .ok value
    | none => .error .malformed
  skip := Source.skip
  surplus _ := .malformed
  choice := Source.choice

end AccessPlanner
