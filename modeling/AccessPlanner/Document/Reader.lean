import AccessPlanner.Document.Text

/-!
# Readers

A `Reader` reads one kind of thing from a document.  Scalars, choices, lists and tables come
first, then records: `Record` lists the fields of a structure in the order of their declaration,
and reads them by name from an object or by place from an array.  `readText` reads a whole text.
-/

namespace AccessPlanner

/-- A reader of one kind of thing. -/
abbrev Reader (α β : Type) := α → Except DocumentError β

namespace Reader

variable {α β : Type} [Readable α]

/-! ### Scalars -/

/-- A text. -/
def string : Reader α String := fun source =>
  match Readable.view source with
  | .string value => .ok value
  | .malformed => .error .malformed
  | _ => .error .invalidType

/-- A truth value. -/
def bool : Reader α Bool := fun source =>
  match Readable.view source with
  | .bool value => .ok value
  | .malformed => .error .malformed
  | _ => .error .invalidType

/-- A natural number: a whole number that is not negative. -/
def natural : Reader α Nat := fun source =>
  match Readable.view source with
  | .number (.whole value) => if value < 0 then .error .invalidValue else .ok value.toNat
  | .malformed => .error .malformed
  | _ => .error .invalidType

/-- Any value. -/
def value : Reader α Json := Readable.value

/-- Nothing for `null`, and otherwise what another reader reads. -/
def optional (read : Reader α β) : Reader α (Option β) := fun source =>
  match Readable.view source with
  | .null => .ok none
  | _ => (read source).map some

/-- **A choice** among things with names. -/
def choice (all : List β) (name : β → String) : Reader α β := fun source => do
  let (found, check) ← Readable.choice source
  match all.find? fun other => name other == found with
  | none => throw (.unknownVariant found)
  | some other => do
    check
    return other

/-! ### Lists and tables -/

/-- A list of things of one kind. -/
def list (read : Reader α β) : Reader α (List β) := fun source =>
  match Readable.view source with
  | .array items => items.mapM read
  | .malformed => .error .malformed
  | _ => .error .invalidType

/-- The entries of a table, put in one after the other. -/
def entries (read : Reader α β) : NameMap β → Reader (List (Option String × α)) (NameMap β)
  | map, [] => .ok map
  | _, (none, _) :: _ => .error .malformed
  | map, (some name, source) :: rest => do
    let value ← read source
    entries read (map.insert name value) rest

/-- A table of things of one kind; of two entries of one name the later one counts. -/
def table (read : Reader α β) : Reader α (NameMap β) := fun source =>
  match Readable.view source with
  | .object fields => entries read {} fields
  | .malformed => .error .malformed
  | _ => .error .invalidType

end Reader

/-! ### Records -/

/-- **A field of a structure:** its name, whether it must be there, and how what is read for it
is put into the structure. -/
structure Field (α σ : Type) where
  name : String
  required : Bool
  read : α → σ → Except DocumentError σ

/-- A field that must be there. -/
def Field.mandatory {α σ β : Type} (name : String) (read : Reader α β) (put : β → σ → σ) :
    Field α σ :=
  { name, required := true, read := fun source state => (read source).map fun b => put b state }

/-- A field that may be missing. -/
def Field.optional {α σ β : Type} (name : String) (read : Reader α β) (put : β → σ → σ) :
    Field α σ :=
  { name, required := false, read := fun source state => (read source).map fun b => put b state }

/-- **A structure in a document:** its fields in the order of their declaration. -/
abbrev Record (α σ : Type) := List (Field α σ)

namespace Record

variable {α σ : Type} [Readable α]

/-- Reading fields by name, in the order in which they stand.  Fields of other names are passed
over, and a second field of a name is refused.  `seen` are the names that were read. -/
def readFields (record : Record α σ) :
    List String → σ → List (Option String × α) → Except DocumentError (List String × σ)
  | seen, state, [] => .ok (seen, state)
  | _, _, (none, _) :: _ => .error .malformed
  | seen, state, (some name, source) :: rest =>
    match record.find? fun field => field.name == name with
    | none => do
      Readable.skip source
      readFields record seen state rest
    | some field =>
      if seen.contains name then .error (.duplicateField name)
      else do
        let state ← field.read source state
        readFields record (name :: seen) state rest

/-- Reading fields by their places.  The fields for which there is nothing left must not be
required. -/
def readItems : Record α σ → σ → List α → Except DocumentError σ
  | record, state, [] =>
    if record.any fun field => field.required then .error .invalidLength else .ok state
  | [], _, item :: _ => .error (Readable.surplus item)
  | field :: record, state, item :: items => do
    let state ← field.read item state
    readItems record state items

/-- **Reading a structure,** from an object or from an array.  Of the required fields that are
missing in an object, the first one in the order of declaration is named. -/
def read (record : Record α σ) (start : σ) : Reader α σ := fun source =>
  match Readable.view source with
  | .object fields => do
    let (seen, state) ← readFields record [] start fields
    match record.find? fun field => field.required && !seen.contains field.name with
    | some field => throw (.missingField field.name)
    | none => return state
  | .array items => readItems record start items
  | .malformed => .error .malformed
  | _ => .error .invalidType

end Record

/-! ### Whole texts -/

/-- Reading a whole text: nothing but blanks may come after what is read. -/
def readText {β : Type} (read : Reader Source β) (bytes : List UInt8) : Except DocumentError β :=
  let (source, isWhole) := Source.ofBytes bytes
  match read source with
  | .error error => .error error
  | .ok result => if isWhole then .ok result else .error .malformed

end AccessPlanner
