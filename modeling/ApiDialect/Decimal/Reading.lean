import ApiDialect.Decimal.Shortest

/-!
From decimal digits to floats. `Decimal.nearest` rounds once; `Decimal.scaled` reads as many
digits as fit in 64 bits and applies one rounded power of ten, which may miss the nearest float
by its last place.
-/

namespace ApiDialect
namespace Decimal

/-- The value of a list of decimal digits. -/
def ofDigits (digits : List Char) : Nat :=
  digits.foldl (fun total digit => total * 10 + (digit.toNat - '0'.toNat)) 0

/-- Digits are taken while the number they form stays below `2 ^ 64`; the rest is handed back. -/
def absorb (total : Nat) : List Char → Nat × List Char
  | [] => (total, [])
  | digit :: rest =>
    let longer := total * 10 + (digit.toNat - '0'.toNat)
    if longer < Nat.pow 2 64 then absorb longer rest else (total, digit :: rest)

/-- The float nearest to `digits * 10 ^ exponent`; infinite when that is out of range. -/
def nearest (digits : Nat) (exponent : Int) : Float :=
  if digits = 0 then 0
  else
    let magnitude := exponent + (toString digits).length
    if magnitude > 310 then Float.ofScientific 1 false 400
    else if magnitude < -400 then 0
    else Float.ofScientific digits (exponent < 0) exponent.natAbs

private def power (exponent : Nat) : Float :=
  Float.ofScientific 1 false exponent

private def finite? (value : Float) : Option Float :=
  if value.isInf then none else some value

/-- Divides by `10 ^ 308` until what is left of a negative exponent is in the range of powers. -/
private def scaleDown (value : Float) (exponent : Nat) : Float :=
  if exponent ≤ 308 then value / power exponent
  else if value == 0 then value
  else scaleDown (value / power 308) (exponent - 308)
termination_by exponent

/-- `none` when the result would pass the largest float. -/
def scaled (digits : Nat) (exponent : Int) : Option Float :=
  let value := digits.toUInt64.toFloat
  if exponent < 0 then some (scaleDown value exponent.natAbs)
  else if exponent ≤ 308 then finite? (value * power exponent.natAbs)
  else if digits = 0 then some value
  else none

/-- The magnitude written with these whole digits, fraction digits and exponent. Whole digits that
do not fit count as powers of ten, fraction digits that do not fit are dropped. -/
def scaledParts (whole fraction : List Char) (exponent : Int) : Option Float :=
  let (start, beyond) := absorb 0 whole
  let (digits, dropped) := absorb start fraction
  scaled digits (exponent + beyond.length - (fraction.length - dropped.length : Nat))

end Decimal
end ApiDialect
