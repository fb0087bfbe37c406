import AccessPlanner.Decimal.Binary64

/-!
# The shortest decimal of a double

`shortest units` is the decimal with the fewest digits that reads back as the double, and of
those the one nearest to it.  `DecimalLayout` says how digits and exponent become text.

The interval of reals that round to a double is bounded by the midpoints to its neighbours.  A
midpoint is a half or a quarter of a grid step away, so all bounds are kept in quarters of a
unit.
-/

namespace AccessPlanner

namespace Binary64

/-! ### The interval that reads back -/

/-- The reals that round to one double, in quarters of a unit; the ends belong to it or not. -/
structure Interval where
  lower : Nat
  upper : Nat
  closed : Bool

/-- **The rounding interval.** The neighbour below a power of two is half as far away as the one
above it; the ends round to the double exactly when its last bit is zero. -/
def interval (units : Nat) : Interval :=
  let exponent := gridExponent units
  let grid := 1 <<< exponent
  let atPower := 0 < exponent ∧ units = 1 <<< (52 + exponent)
  { lower := 4 * units - (if atPower then grid else 2 * grid)
    upper := 4 * units + 2 * grid
    closed := units / grid % 2 = 0 }

/-- Membership of `num / den` units. -/
def Interval.contains (bounds : Interval) (num den : Nat) : Bool :=
  if bounds.closed then bounds.lower * den ≤ 4 * num && 4 * num ≤ bounds.upper * den
  else bounds.lower * den < 4 * num && 4 * num < bounds.upper * den

/-! ### Digits -/

/-- A decimal: a whole number of digits times a power of ten. -/
structure Decimal where
  digits : Nat
  exponent : Int
  deriving DecidableEq

/-- The power of ten of the first digit of a positive magnitude.  Four hundred places behind the
point bring every positive double above one. -/
def leadingExponent (units : Nat) : Int :=
  let shifted := units * Nat.pow 10 400 / one
  (Nat.toDigits 10 shifted).length - 401

/-- The decimal `digits * 10 ^ exponent` as a fraction of units. -/
def Decimal.asUnits (d : Decimal) : Nat × Nat :=
  if d.exponent < 0 then (d.digits * one, Nat.pow 10 d.exponent.natAbs)
  else (d.digits * Nat.pow 10 d.exponent.natAbs * one, 1)

/-- The neighbour of a magnitude on the grid of a power of ten that reads back as it.  Of two,
the nearer one; at equal distance the even one. -/
def onGrid? (units : Nat) (exponent : Int) : Option Decimal :=
  let (num, den) :=
    if exponent < 0 then (units * Nat.pow 10 exponent.natAbs, one)
    else (units, one * Nat.pow 10 exponent.natAbs)
  let below : Decimal := ⟨num / den, exponent⟩
  let above : Decimal := ⟨num / den + 1, exponent⟩
  let bounds := interval units
  let fits (d : Decimal) := bounds.contains d.asUnits.1 d.asUnits.2
  let first := if roundQuotient num den = below.digits then below else above
  let second := if roundQuotient num den = below.digits then above else below
  if fits first then some first else if fits second then some second else none

/-- Zeros at the end of the digits move into the exponent. -/
def Decimal.trimmed : Nat → Decimal → Decimal
  | 0, d => d
  | fuel + 1, d =>
    if d.digits % 10 = 0 ∧ d.digits ≠ 0 then trimmed fuel ⟨d.digits / 10, d.exponent + 1⟩ else d

/-- **The shortest decimal.** Grids of one digit, two digits and so on up to seventeen, which
always holds a point of the interval; the first grid with a point in it decides. -/
def shortest (units : Nat) : Decimal :=
  let leading := leadingExponent units
  let found := (List.range 17).findSome? fun (more : Nat) => onGrid? units (leading - more)
  (found.getD ⟨units, 0⟩).trimmed 20

end Binary64

/-! ### Text -/

/-- **How a decimal is written.** The powers of ten of the first digit that are written without
an exponent, from the lowest to the highest. -/
structure DecimalLayout where
  lowest : Int
  highest : Int

namespace DecimalLayout

/-- Digits without an exponent, with at least one digit on each side of the point. -/
def positional (digits : List Char) (leading : Int) : List Char :=
  if leading < 0 then
    ['0', '.'] ++ List.replicate (leading.natAbs - 1) '0' ++ digits
  else
    let whole := leading.natAbs + 1
    let padded := digits ++ List.replicate (whole - digits.length) '0'
    let fraction := padded.drop whole
    padded.take whole ++ '.' :: (if fraction.isEmpty then ['0'] else fraction)

/-- Digits with one digit before the point, and an exponent whose sign is always written. -/
def scientific (digits : List Char) (leading : Int) : List Char :=
  let fraction := digits.drop 1
  digits.take 1 ++ (if fraction.isEmpty then [] else '.' :: fraction)
    ++ ['e', if leading < 0 then '-' else '+'] ++ Nat.toDigits 10 leading.natAbs

/-- The text of a double. -/
def write (layout : DecimalLayout) (x : Binary64) : String :=
  let sign := if x.negative then ['-'] else []
  if x.units = 0 then String.ofList (sign ++ ['0', '.', '0'])
  else
    let decimal := Binary64.shortest x.units
    let digits := Nat.toDigits 10 decimal.digits
    let leading := decimal.exponent + digits.length - 1
    let body :=
      if layout.lowest ≤ leading ∧ leading ≤ layout.highest then positional digits leading
      else scientific digits leading
    String.ofList (sign ++ body)

end DecimalLayout

end AccessPlanner
