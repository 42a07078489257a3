/-!
Hexadecimal digits in both cases, as escapes are read and written.
-/

namespace ApiDialect
namespace Hex

def value? (char : Char) : Option Nat :=
  if '0' ≤ char ∧ char ≤ '9' then some (char.toNat - '0'.toNat)
  else if 'a' ≤ char ∧ char ≤ 'f' then some (char.toNat - 'a'.toNat + 10)
  else if 'A' ≤ char ∧ char ≤ 'F' then some (char.toNat - 'A'.toNat + 10)
  else none

/-- The number that some digits give, the first of them the most significant. -/
def ofDigits? (digits : List Char) : Option Nat :=
  digits.foldlM (fun total digit => (total * 16 + ·) <$> value? digit) 0

def lower (digit : Nat) : Char :=
  if digit < 10 then Char.ofNat ('0'.toNat + digit) else Char.ofNat ('a'.toNat + (digit - 10))

def upper (digit : Nat) : Char :=
  if digit < 10 then Char.ofNat ('0'.toNat + digit) else Char.ofNat ('A'.toNat + (digit - 10))

/-- The last `width` upper-case digits of a number. -/
def padded (number : Nat) : (width : Nat) → List Char
  | 0 => []
  | width + 1 => upper (number / Nat.pow 16 width % 16) :: padded number width

end Hex
end ApiDialect
