/-!
# Finite binary64 numbers

A finite double is a whole multiple of the least positive one, so a magnitude is stored as that
multiple, a natural number of units.  Order and equality are then order and equality of whole
numbers, and a rounding is one division with remainder.

`Binary64` is the type, `nearest` rounds a quotient of units to the format, and
`ofScientific?` reads a decimal significand with a power of ten.
-/

namespace AccessPlanner

/-! ### The format -/

/-- **Units in one.** The least positive double is this fraction of one. -/
def Binary64.one : Nat := 1 <<< 1074

/-- The binary exponent of the grid that doubles of this magnitude lie on: 53 significant bits,
and never finer than one unit. -/
def Binary64.gridExponent (units : Nat) : Nat := units.log2 - 52

/-- A number of units is a double when it lies on its own grid and below the largest exponent. -/
def Binary64.Representable (units : Nat) : Prop :=
  units % (1 <<< gridExponent units) = 0 ∧ units < 1 <<< 2098

instance (units : Nat) : Decidable (Binary64.Representable units) :=
  inferInstanceAs (Decidable (_ ∧ _))

/-- **A finite double:** a sign and a magnitude in units.  The sign of zero is kept, because it
is written out. -/
structure Binary64 where
  negative : Bool
  units : Nat
  representable : Binary64.Representable units
  deriving DecidableEq

namespace Binary64

/-- The value in units, with its sign; both zeros have the value zero. -/
def signed (x : Binary64) : Int := if x.negative then -(x.units : Int) else x.units

/-! ### Rounding -/

/-- The whole number nearest to `num / den`; a half goes to the even neighbour. -/
def roundQuotient (num den : Nat) : Nat :=
  let quotient := num / den
  let twice := 2 * (num % den)
  if twice < den ∨ (twice = den ∧ quotient % 2 = 0) then quotient else quotient + 1

/-- **Rounding to nearest.** The point of the format's grid nearest to `num / den` units.  A
result past the largest exponent is no double, which `Representable` tells. -/
def nearest (num den : Nat) : Nat :=
  let grid := 1 <<< gridExponent (num / den)
  roundQuotient num (den * grid) * grid

/-- The double nearest to a whole number, as signed units. -/
def ofInt (value : Int) : Int :=
  let magnitude : Int := nearest (value.natAbs * one) 1
  if value < 0 then -magnitude else magnitude

/-! ### Decimal input -/

/-- The double nearest to a power of ten. -/
def powerOfTen (exponent : Nat) : Nat := nearest (Nat.pow 10 exponent * one) 1

/-- The largest power of ten that is a double. -/
def largestPower : Nat := 308

/-- A magnitude divided by the largest power of ten a number of times, rounded each time. -/
def divideRepeatedly : Nat → Nat → Nat
  | 0, units => units
  | times + 1, units =>
    if units = 0 then 0
    else divideRepeatedly times (nearest (units * one) (powerOfTen largestPower))

/-- **Reading a decimal.** The significand is rounded to a double first; then it is multiplied or
divided by the double of the power of ten and rounded once more.  Powers past the largest one
are divided off in steps of it, and none of them is multiplied on to a significand other than
zero. -/
def scaled? (significand : Nat) (exponent : Int) : Option Nat :=
  let start := nearest (significand * one) 1
  if exponent < 0 then
    let places := exponent.natAbs
    let steps := (places - 1) / largestPower
    let rest := places - steps * largestPower
    some (nearest (divideRepeatedly steps start * one) (powerOfTen rest))
  else if exponent ≤ largestPower then
    some (nearest (start * powerOfTen exponent.natAbs) one)
  else if start = 0 then some 0
  else none

/-- The double that a decimal significand with a power of ten is read as, if it is finite. -/
def ofScientific? (negative : Bool) (significand : Nat) (exponent : Int) : Option Binary64 :=
  match scaled? significand exponent with
  | none => none
  | some units => if h : Representable units then some ⟨negative, units, h⟩ else none

end Binary64

end AccessPlanner
