/-!
# Blank characters

A character is blank when it has the Unicode property White_Space (`isBlank`).  `trim` and `trimEnd`
drop blanks at the ends of a text, and `firstWord` cuts a text at its first blank.
-/

namespace AccessPlanner

/-- The ranges of the property White_Space, both ends included. -/
def blankRanges : List (Nat × Nat) :=
  [(0x09, 0x0D), (0x20, 0x20), (0x85, 0x85), (0xA0, 0xA0), (0x1680, 0x1680), (0x2000, 0x200A),
    (0x2028, 0x2029), (0x202F, 0x202F), (0x205F, 0x205F), (0x3000, 0x3000)]

/-- Whether a character is blank. -/
def isBlank (c : Char) : Bool :=
  blankRanges.any fun (first, last) => first ≤ c.toNat && c.toNat ≤ last

/-- A text without the blanks at its end. -/
def trimEnd (text : List Char) : List Char := (text.reverse.dropWhile isBlank).reverse

/-- A text without the blanks at both ends. -/
def trim (text : List Char) : List Char := trimEnd (text.dropWhile isBlank)

/-- A text up to its first blank, and what comes after that blank. -/
def firstWord (text : List Char) : List Char × List Char :=
  (text.takeWhile fun c => !isBlank c, (text.dropWhile fun c => !isBlank c).drop 1)

end AccessPlanner
