import AccessPlanner.Json.Printer
import AccessPlanner.Proofs.Decimal.Numeral

/-!
# The grammar of JSON text

`Json.IsText` derives the texts of JSON values without blanks, and `Json.IsObject` those of objects
with the names of their fields.  A name is what its quoted form stands for, character by character
(`Json.Spells`).

The text of every value is derived (`Json.isText_chars`), and the names of an object are those in
its text (`Json.isObject_chars`).  No text that is derived has a control character in it
(`Json.IsText.isUncontrolled`), so that it never breaks a line.
-/

namespace AccessPlanner.Json

/-! ### Strings -/

/-- The value of a hexadecimal digit. -/
def hexDigit? (digit : Char) : Option Nat :=
  if digit.isDigit then some (digit.toNat - 48)
  else if 'a' ≤ digit ∧ digit ≤ 'f' then some (digit.toNat - 87)
  else if 'A' ≤ digit ∧ digit ≤ 'F' then some (digit.toNat - 55)
  else none

/-- The letters that stand for characters after a backslash. -/
def escapes : List (Char × Char) :=
  [('"', '"'), ('\\', '\\'), ('/', '/'), ('b', '\x08'), ('f', '\x0c'), ('n', '\n'), ('r', '\r'),
    ('t', '\t')]

/-- **How a character stands in a string:** as it is, as a letter after a backslash, or by its
number. -/
inductive IsPiece (c : Char) : List Char → Prop
  | plain (hcontrol : 32 ≤ c.toNat) (hquote : c ≠ '"') (hbackslash : c ≠ '\\') : IsPiece c [c]
  | letter {letter : Char} (h : (letter, c) ∈ escapes) : IsPiece c ['\\', letter]
  | number {a b d e : Char} {thousands hundreds tens ones : Nat} (ha : hexDigit? a = some thousands)
      (hb : hexDigit? b = some hundreds) (hd : hexDigit? d = some tens)
      (he : hexDigit? e = some ones)
      (h : c.toNat = ((thousands * 16 + hundreds) * 16 + tens) * 16 + ones) :
      IsPiece c ['\\', 'u', a, b, d, e]

/-- The characters of a string, one after the other. -/
inductive Spells : List Char → List Char → Prop
  | nil : Spells [] []
  | cons {c : Char} {cs piece text : List Char} (hpiece : IsPiece c piece) (h : Spells cs text) :
      Spells (c :: cs) (piece ++ text)

/-- **A string in quotation marks.** -/
inductive IsQuoted (value : String) : List Char → Prop
  | quoted {text : List Char} (h : Spells value.toList text) :
      IsQuoted value ('"' :: (text ++ ['"']))

/-! ### Values -/

/-- A field in a text: its name, the name as it is quoted, and the text of its value. -/
structure Member where
  name : String
  quoted : List Char
  value : List Char

/-- The text of a field. -/
def Member.text (member : Member) : List Char := member.quoted ++ ':' :: member.value

/-- Texts with commas in between. -/
def separated : List (List Char) → List Char
  | [] => []
  | text :: rest => text ++ rest.flatMap fun other => ',' :: other

/-- The text of an object with some fields. -/
def braced (members : List Member) : List Char :=
  '{' :: (separated (members.map Member.text) ++ ['}'])

/-- **The text of a value.** -/
inductive IsText : List Char → Prop
  | null : IsText ['n', 'u', 'l', 'l']
  | true : IsText ['t', 'r', 'u', 'e']
  | false : IsText ['f', 'a', 'l', 's', 'e']
  | number {text : List Char} (h : IsNumeral text) : IsText text
  | string {value : String} {text : List Char} (h : IsQuoted value text) : IsText text
  | array {items : List (List Char)} (h : ∀ item ∈ items, IsText item) :
      IsText ('[' :: (separated items ++ [']']))
  | object {members : List Member} (hnames : ∀ member ∈ members, IsQuoted member.name member.quoted)
      (hvalues : ∀ member ∈ members, IsText member.value) : IsText (braced members)

/-- **The text of an object** whose fields have some names. -/
structure IsObject (names : List String) (text : List Char) : Prop where
  intro ::
  exists_members : ∃ members : List Member,
    (∀ member ∈ members, IsQuoted member.name member.quoted ∧ IsText member.value) ∧
      members.map Member.name = names ∧ braced members = text

theorem IsObject.isText {names : List String} {text : List Char} (h : IsObject names text) :
    IsText text := by
  obtain ⟨members, heach, -, rfl⟩ := h.exists_members
  exact .object (fun member hmem => (heach member hmem).1) fun member hmem => (heach member hmem).2

/-! ### Printing -/

theorem isPiece_escape (c : Char) : IsPiece c (escape c) := by
  have hdigit : ∀ n < 16, hexDigit? (Nat.digitChar n) = some n := by decide
  unfold escape
  split_ifs with hquote hbackslash hfeed hreturn htab hback hform hcontrol
  all_goals try subst c; exact .letter (by decide)
  · exact .number (hdigit 0 (by decide)) (hdigit 0 (by decide)) (hdigit (c.toNat / 16) (by omega))
      (hdigit (c.toNat % 16) (by omega)) (by omega)
  · exact .plain (by omega) hquote hbackslash

theorem spells_flatMap_escape (cs : List Char) : Spells cs (cs.flatMap escape) := by
  induction cs with
  | nil => exact .nil
  | cons c cs ih => exact .cons (isPiece_escape c) ih

theorem isQuoted_quote (value : String) : IsQuoted value (quote value) :=
  .quoted (spells_flatMap_escape value.toList)

theorem itemChars_eq (items : List Json) :
    itemChars items = (items.map chars).flatMap (fun text => ',' :: text) ++ [']'] := by
  induction items with
  | nil => rfl
  | cons item rest ih => rw [itemChars, ih]; simp

theorem chars_array (items : List Json) :
    chars (array items) = '[' :: (separated (items.map chars) ++ [']']) := by
  cases items with
  | nil => rfl
  | cons item rest =>
    rw [chars, itemChars_eq, List.map_cons, separated, List.append_assoc]

/-- The field of an object in its text. -/
def member (field : String × Json) : Member := ⟨field.1, quote field.1, chars field.2⟩

theorem fieldChars_eq (fields : List (String × Json)) :
    fieldChars fields =
      ((fields.map member).map Member.text).flatMap (fun text => ',' :: text) ++ ['}'] := by
  induction fields with
  | nil => rfl
  | cons field rest ih =>
    rw [fieldChars, ih, List.map_cons, List.map_cons, List.flatMap_cons]
    simp [member, Member.text]

theorem chars_object (fields : List (String × Json)) :
    chars (object fields) = braced (fields.map member) := by
  cases fields with
  | nil => rfl
  | cons field rest =>
    rw [chars, fieldChars_eq, braced, List.map_cons, List.map_cons, separated]
    simp [member, Member.text]

theorem isNumeral_write (value : Number) : IsNumeral value.write := by
  cases value with
  | whole value =>
    show IsNumeral (writeWhole value)
    unfold writeWhole
    split_ifs
    · exact .negative (isWhole_toDigits _).isUnsigned
    · exact .unsigned (isWhole_toDigits _).isUnsigned
  | double value => exact doubleLayout.isNumeral_write value

mutual

/-- **The text of every value is derived.** -/
theorem isText_chars : ∀ value : Json, IsText (chars value)
  | null => .null
  | bool true => .true
  | bool false => .false
  | number value => .number (isNumeral_write value)
  | string value => .string (isQuoted_quote value)
  | array items => by
    rw [chars_array]
    refine .array fun text htext => ?_
    obtain ⟨item, hmem, rfl⟩ := List.mem_map.mp htext
    exact isText_of_mem items item hmem
  | object fields => by
    rw [chars_object]
    refine .object (fun found hfound => ?_) fun found hfound => ?_
    · obtain ⟨field, -, rfl⟩ := List.mem_map.mp hfound
      exact isQuoted_quote field.1
    · obtain ⟨field, hmem, rfl⟩ := List.mem_map.mp hfound
      exact isText_of_mem_fields fields field hmem

theorem isText_of_mem : ∀ items : List Json, ∀ item ∈ items, IsText (chars item)
  | [] => List.forall_mem_nil _
  | item :: rest => List.forall_mem_cons.mpr ⟨isText_chars item, isText_of_mem rest⟩

theorem isText_of_mem_fields :
    ∀ fields : List (String × Json), ∀ field ∈ fields, IsText (chars field.2)
  | [] => List.forall_mem_nil _
  | (_, value) :: rest => List.forall_mem_cons.mpr ⟨isText_chars value, isText_of_mem_fields rest⟩

end

/-- **The text of an object** has the names of its fields. -/
theorem isObject_chars (fields : List (String × Json)) :
    IsObject (fields.map fun field => field.1) (chars (object fields)) := by
  refine ⟨fields.map member, fun found hfound => ?_, ?_, (chars_object fields).symm⟩
  · obtain ⟨field, -, rfl⟩ := List.mem_map.mp hfound
    exact ⟨isQuoted_quote field.1, isText_chars field.2⟩
  · rw [List.map_map]
    rfl

/-! ### Control characters -/

/-- **A text without control characters,** and so without line breaks. -/
def IsUncontrolled (text : List Char) : Prop := ∀ c ∈ text, 32 ≤ c.toNat

theorem isUncontrolled_nil : IsUncontrolled [] := List.forall_mem_nil _

theorem isUncontrolled_append {first rest : List Char} :
    IsUncontrolled (first ++ rest) ↔ IsUncontrolled first ∧ IsUncontrolled rest :=
  List.forall_mem_append

theorem isUncontrolled_cons {c : Char} {rest : List Char} :
    IsUncontrolled (c :: rest) ↔ 32 ≤ c.toNat ∧ IsUncontrolled rest :=
  List.forall_mem_cons

theorem le_toNat_of_isDigit {c : Char} (h : c.isDigit = true) : 32 ≤ c.toNat := by
  simp only [Char.isDigit, Bool.and_eq_true, decide_eq_true_eq, UInt32.le_iff_toNat_le] at h
  exact Nat.le_trans (by decide) h.1

theorem le_toNat_of_hexDigit? {digit : Char} {value : Nat} (h : hexDigit? digit = some value) :
    32 ≤ digit.toNat := by
  unfold hexDigit? at h
  split_ifs at h with hdigit hlower hupper
  · exact le_toNat_of_isDigit hdigit
  · exact Nat.le_trans (by decide) (UInt32.le_iff_toNat_le.mp hlower.1)
  · exact Nat.le_trans (by decide) (UInt32.le_iff_toNat_le.mp hupper.1)

theorem IsPiece.isUncontrolled {c : Char} {piece : List Char} (h : IsPiece c piece) :
    IsUncontrolled piece := by
  cases h with
  | plain hcontrol => exact isUncontrolled_cons.mpr ⟨hcontrol, isUncontrolled_nil⟩
  | letter h =>
    have hletter : ∀ pair ∈ escapes, 32 ≤ pair.1.toNat := by decide
    exact isUncontrolled_cons.mpr
      ⟨by decide, isUncontrolled_cons.mpr ⟨hletter _ h, isUncontrolled_nil⟩⟩
  | number ha hb hd he =>
    simp only [isUncontrolled_cons, le_toNat_of_hexDigit? ha, le_toNat_of_hexDigit? hb,
      le_toNat_of_hexDigit? hd, le_toNat_of_hexDigit? he, isUncontrolled_nil]
    decide

theorem IsQuoted.isUncontrolled {value : String} {text : List Char} (h : IsQuoted value text) :
    IsUncontrolled text := by
  obtain ⟨hspells⟩ := h
  have hinner : ∀ {cs text : List Char}, Spells cs text → IsUncontrolled text := by
    intro cs text h
    induction h with
    | nil => exact isUncontrolled_nil
    | cons hpiece _ ih => exact isUncontrolled_append.mpr ⟨hpiece.isUncontrolled, ih⟩
  refine isUncontrolled_cons.mpr ⟨by decide, isUncontrolled_append.mpr ⟨hinner hspells, ?_⟩⟩
  exact isUncontrolled_cons.mpr ⟨by decide, isUncontrolled_nil⟩

theorem isUncontrolled_of_isNumeral {text : List Char} (h : IsNumeral text) :
    IsUncontrolled text := by
  intro c hc
  have hnumeric := h.isNumeric c hc
  simp only [isNumeric, Bool.or_eq_true] at hnumeric
  rcases hnumeric with hdigit | hother
  · exact le_toNat_of_isDigit hdigit
  · simp at hother
    rcases hother with rfl | rfl | rfl | rfl | rfl <;> decide

theorem isUncontrolled_separated {texts : List (List Char)}
    (h : ∀ text ∈ texts, IsUncontrolled text) : IsUncontrolled (separated texts) := by
  cases texts with
  | nil => exact isUncontrolled_nil
  | cons text rest =>
    obtain ⟨hfirst, hrest⟩ := List.forall_mem_cons.mp h
    refine isUncontrolled_append.mpr ⟨hfirst, fun c hc => ?_⟩
    obtain ⟨other, hother, hmem⟩ := List.mem_flatMap.mp hc
    rcases List.mem_cons.mp hmem with rfl | hmem
    · decide
    · exact hrest other hother c hmem

/-- **No text has a control character in it.** -/
theorem IsText.isUncontrolled {text : List Char} (h : IsText text) : IsUncontrolled text := by
  have hwrapped : ∀ {opening closing : Char} {text : List Char}, 32 ≤ opening.toNat →
      32 ≤ closing.toNat → IsUncontrolled text →
        IsUncontrolled (opening :: (text ++ [closing])) := by
    intro opening closing text hopening hclosing htext
    exact isUncontrolled_cons.mpr ⟨hopening, isUncontrolled_append.mpr
      ⟨htext, isUncontrolled_cons.mpr ⟨hclosing, isUncontrolled_nil⟩⟩⟩
  induction h with
  | null | true | false => simp [IsUncontrolled]
  | number h => exact isUncontrolled_of_isNumeral h
  | string h => exact h.isUncontrolled
  | array _ ih => exact hwrapped (by decide) (by decide) (isUncontrolled_separated ih)
  | object hnames _ ih =>
    refine hwrapped (by decide) (by decide) (isUncontrolled_separated fun text hmem => ?_)
    obtain ⟨member, hmember, rfl⟩ := List.mem_map.mp hmem
    exact isUncontrolled_append.mpr ⟨(hnames member hmember).isUncontrolled,
      isUncontrolled_cons.mpr ⟨by decide, ih member hmember⟩⟩

end AccessPlanner.Json
