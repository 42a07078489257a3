/-!
Binary floats and the decimals that stand for them. `Decimal.shortest` answers the decimal with
the fewest digits among those that round to a given float, and the nearest of these.
-/

namespace ApiDialect

/-- The number `digits * 10 ^ exponent`. -/
structure Decimal where
  digits : Nat
  exponent : Int
  deriving DecidableEq, Repr

/-- The magnitude `mantissa * 2 ^ exponent` of a finite float. -/
structure Binary where
  mantissa : Nat
  exponent : Int
  deriving DecidableEq, Repr

namespace Binary

def isNegative (bits : UInt64) : Bool :=
  bits.toNat / Nat.pow 2 63 = 1

/-- The fields of a 64-bit float: 52 bits of fraction below 11 bits of exponent. A zero exponent
field has no hidden leading bit. -/
def ofBits (bits : UInt64) : Binary :=
  let fraction : Nat := bits.toNat % Nat.pow 2 52
  let field : Nat := bits.toNat / Nat.pow 2 52 % Nat.pow 2 11
  if field = 0 then ⟨fraction, -1074⟩ else ⟨fraction + Nat.pow 2 52, Int.ofNat field - 1075⟩

def isWhole (value : Binary) : Bool :=
  value.exponent ≥ 0 || value.mantissa % Nat.pow 2 value.exponent.natAbs = 0

/-- The exact integer below the magnitude. -/
def floor (value : Binary) : Nat :=
  if value.exponent ≥ 0 then value.mantissa * Nat.pow 2 value.exponent.toNat
  else value.mantissa / Nat.pow 2 value.exponent.natAbs

end Binary

namespace Decimal

/-- The reals that round to one float, in quarters of its last place: `low`, the float itself and
`high`, with the ends included when the mantissa is even. -/
private structure Window where
  low : Nat
  middle : Nat
  high : Nat
  unit : Int
  closed : Bool

private def window (value : Binary) : Window :=
  let narrow := value.mantissa = Nat.pow 2 52 && value.exponent > -1074
  { low := 4 * value.mantissa - if narrow then 1 else 2
    middle := 4 * value.mantissa
    high := 4 * value.mantissa + 2
    unit := value.exponent - 2
    closed := value.mantissa % 2 = 0 }

/-- Scales that make `d * 10 ^ power` and `x * 2 ^ unit` comparable as `d * fst` and `x * snd`. -/
private def scales (power unit : Int) : Nat × Nat :=
  (Nat.pow 10 power.toNat * Nat.pow 2 (-unit).toNat, Nat.pow 2 unit.toNat * Nat.pow 10 (-power).toNat)

private def Window.contains (range : Window) (scaled : Nat × Nat) (digits : Nat) : Bool :=
  let point := digits * scaled.1
  if range.closed then range.low * scaled.2 ≤ point && point ≤ range.high * scaled.2
  else range.low * scaled.2 < point && point < range.high * scaled.2

/-- The neighbour of the float on the grid of multiples of `10 ^ power` that rounds to it, if one
does: the nearer of two, and of two equally near ones the even. -/
private def onGrid? (range : Window) (power : Int) : Option Nat :=
  let scaled := scales power range.unit
  let target := range.middle * scaled.2
  let below := target / scaled.1
  let above := below + 1
  let lower := range.contains scaled below
  let upper := range.contains scaled above
  if lower && upper then
    let left := target - below * scaled.1
    let right := above * scaled.1 - target
    if left < right then some below
    else if right < left then some above
    else if below % 2 = 0 then some below else some above
  else if lower then some below
  else if upper then some above
  else none

/-- The exponent of the leading decimal digit. Binary magnitude fixes it up to one. -/
private def leadingExponent (value : Binary) : Int :=
  let guess := (value.mantissa.log2 + value.exponent) * 30103 / 100000
  let scaled := scales (guess + 1) value.exponent
  if scaled.1 ≤ value.mantissa * scaled.2 then guess + 1 else guess

private def firstHit (range : Window) (power : Int) : Nat → Decimal
  | 0 => ⟨range.middle * (scales power range.unit).2 / (scales power range.unit).1, power⟩
  | grids + 1 =>
    match onGrid? range power with
    | some digits => ⟨digits, power⟩
    | none => firstHit range (power - 1) grids

/-- The fewest digits that read back as the float; seventeen always do. -/
def shortest (value : Binary) : Decimal :=
  if value.mantissa = 0 then ⟨0, 0⟩
  else firstHit (window value) (leadingExponent value) 17

end Decimal
end ApiDialect
