import AccessPlanner.Json.Basic

/-!
# Lexemes of JSON text

Numbers and strings at the head of a list of bytes.  A lexeme is well formed or not, and a well
formed one may still denote nothing: a number may be too large, and a string may hold half of a
character.  Whoever passes over a text only cares for the form.
-/

namespace AccessPlanner

/-- **A lexeme that was looked for** at the head of a text: what it denotes, if anything, and the
rest of the text; or nothing, where there is no lexeme of the form. -/
abbrev Lexeme (α : Type) := Option (Option α × List UInt8)

namespace Lexeme

/-! ### Numbers -/

/-- The value of a decimal digit. -/
def digit? (byte : UInt8) : Option Nat :=
  if 48 ≤ byte.toNat ∧ byte.toNat ≤ 57 then some (byte.toNat - 48) else none

/-- The digits at the head of a text, and the rest. -/
def digits : List UInt8 → List Nat × List UInt8
  | [] => ([], [])
  | byte :: rest =>
    match digit? byte with
    | some value => (value :: (digits rest).1, (digits rest).2)
    | none => ([], byte :: rest)

/-- **The parts of a number:** the digits before the point, the digits after it, the sign and the
digits of the exponent. -/
structure Parts where
  negative : Bool
  whole : List Nat
  fraction : Option (List Nat)
  exponent : Option (Bool × List Nat)

/-- Digits after the point, if there is a point. -/
def fraction? : List UInt8 → Option (Option (List Nat) × List UInt8)
  | 46 :: rest =>
    match digits rest with
    | ([], _) => none
    | (found, rest) => some (some found, rest)
  | rest => some (none, rest)

/-- The sign of an exponent. -/
def exponentSign : List UInt8 → Bool × List UInt8
  | 43 :: rest => (false, rest)
  | 45 :: rest => (true, rest)
  | rest => (false, rest)

/-- Sign and digits of an exponent, if there is one. -/
def exponent? : List UInt8 → Option (Option (Bool × List Nat) × List UInt8)
  | [] => some (none, [])
  | byte :: rest =>
    if byte = 101 ∨ byte = 69 then
      let (negative, rest) := exponentSign rest
      match digits rest with
      | ([], _) => none
      | (found, rest) => some (some (negative, found), rest)
    else some (none, byte :: rest)

/-- The digits before the point: a zero stands alone. -/
def whole? (text : List UInt8) : Option (List Nat × List UInt8) :=
  match digits text with
  | ([], _) => none
  | (0 :: _ :: _, _) => none
  | found => some found

/-- The parts of the number at the head of a text. -/
def parts? (text : List UInt8) : Option (Parts × List UInt8) := do
  let (negative, text) :=
    match text with
    | 45 :: rest => (true, rest)
    | text => (false, text)
  let (whole, text) ← whole? text
  let (fraction, text) ← fraction? text
  let (exponent, text) ← exponent? text
  return (⟨negative, whole, fraction, exponent⟩, text)

/-- The number written by a list of digits. -/
def ofDigits (digits : List Nat) : Nat := digits.foldl (fun value digit => value * 10 + digit) 0

/-- Digits taken over into a significand of 64 bits, and the number of digits left when the next
one no longer fits. -/
def absorb : Nat → List Nat → Nat × Nat
  | significand, [] => (significand, 0)
  | significand, digit :: rest =>
    if significand * 10 + digit < 1 <<< 64 then absorb (significand * 10 + digit) rest
    else (significand, rest.length + 1)

/-- **The double of a number.** Digits that do not fit in the significand are dropped; before the
point each of them counts as a factor of ten. -/
def Parts.double? (parts : Parts) : Option Binary64 :=
  let fraction := parts.fraction.getD []
  let (significand, dropped) := absorb 0 parts.whole
  let (significand, ignored) := absorb significand fraction
  let shift : Int := dropped - (fraction.length - ignored : Nat)
  let exponent : Int :=
    match parts.exponent with
    | none => shift
    | some (false, found) => shift + ofDigits found
    | some (true, found) => shift - ofDigits found
  Binary64.ofScientific? parts.negative significand exponent

/-- The whole number of a literal without point and exponent, if it fits in 64 bits: unsigned,
or below zero signed.  Minus zero is no whole number. -/
def Parts.whole64? (parts : Parts) : Option Int :=
  let magnitude := ofDigits parts.whole
  if parts.fraction.isSome ∨ parts.exponent.isSome then none
  else if parts.negative then
    if 0 < magnitude ∧ magnitude ≤ 1 <<< 63 then some (-(magnitude : Int)) else none
  else if magnitude < 1 <<< 64 then some magnitude
  else none

/-- What a number denotes, if it is in range. -/
def Parts.number? (parts : Parts) : Option Number :=
  match parts.whole64? with
  | some value => some (.whole value)
  | none => parts.double?.map .double

/-- The number at the head of a text. -/
def number (text : List UInt8) : Lexeme Number :=
  (parts? text).map fun (parts, rest) => (parts.number?, rest)

/-! ### Strings -/

/-- A piece of a quoted string: a byte of its text, or a code unit given by its number. -/
inductive Piece where
  | byte (value : UInt8)
  | unit (value : Nat)

/-- The value of a hexadecimal digit. -/
def hexDigit? (byte : UInt8) : Option Nat :=
  let code := byte.toNat
  if 48 ≤ code ∧ code ≤ 57 then some (code - 48)
  else if 97 ≤ code ∧ code ≤ 102 then some (code - 87)
  else if 65 ≤ code ∧ code ≤ 70 then some (code - 55)
  else none

/-- The number of four hexadecimal digits. -/
def hex4? (a b c d : UInt8) : Option Nat := do
  return (((← hexDigit? a) * 16 + (← hexDigit? b)) * 16 + (← hexDigit? c)) * 16 + (← hexDigit? d)

/-- The byte that an escaped byte stands for. -/
def unescape? (byte : UInt8) : Option UInt8 :=
  if byte = 34 ∨ byte = 92 ∨ byte = 47 then some byte
  else if byte = 98 then some 8
  else if byte = 102 then some 12
  else if byte = 110 then some 10
  else if byte = 114 then some 13
  else if byte = 116 then some 9
  else none

/-- The pieces of a string up to its closing quotation mark, and the text after it.  Control
characters must be escaped. -/
def pieces? : List UInt8 → Option (List Piece × List UInt8)
  | [] => none
  | 34 :: rest => some ([], rest)
  | 92 :: 117 :: a :: b :: c :: d :: rest =>
    match hex4? a b c d, pieces? rest with
    | some code, some (found, rest) => some (.unit code :: found, rest)
    | _, _ => none
  | 92 :: escaped :: rest =>
    match unescape? escaped, pieces? rest with
    | some byte, some (found, rest) => some (.byte byte :: found, rest)
    | _, _ => none
  | byte :: rest =>
    if byte.toNat < 32 ∨ byte = 92 then none
    else (pieces? rest).map fun (found, rest) => (.byte byte :: found, rest)

/-- The character of a pair of code units. -/
def pairCode (high low : Nat) : Nat := (high - 0xD800) * 0x400 + (low - 0xDC00) + 0x10000

/-- The bytes of a string.  Code units from the surrogate range count in pairs only. -/
def bytes? : List Piece → Option (List UInt8)
  | [] => some []
  | .byte value :: rest => (bytes? rest).map (value :: ·)
  | .unit high :: .unit low :: rest =>
    if 0xD800 ≤ high ∧ high < 0xDC00 then
      if 0xDC00 ≤ low ∧ low < 0xE000 then
        (bytes? rest).map ((String.singleton (Char.ofNat (pairCode high low))).toUTF8.toList ++ ·)
      else none
    else if 0xDC00 ≤ high ∧ high < 0xE000 then none
    else
      (bytes? (.unit low :: rest)).map ((String.singleton (Char.ofNat high)).toUTF8.toList ++ ·)
  | .unit code :: rest =>
    if 0xD800 ≤ code ∧ code < 0xE000 then none
    else (bytes? rest).map ((String.singleton (Char.ofNat code)).toUTF8.toList ++ ·)

/-- The text that bytes encode. -/
def text? (bytes : List UInt8) : Option String := String.fromUTF8? ⟨bytes.toArray⟩

/-- The string at the head of a text, after its opening quotation mark. -/
def string (text : List UInt8) : Lexeme String :=
  (pieces? text).map fun (found, rest) => ((bytes? found).bind text?, rest)

end Lexeme

end AccessPlanner
