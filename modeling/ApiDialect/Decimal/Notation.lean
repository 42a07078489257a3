import ApiDialect.Decimal.Shortest
import ApiDialect.Value

/-!
How a number is written. Both output forms print the shortest digits and always show that a
float is one; they differ in the spelling of a positive exponent.
-/

namespace ApiDialect

/-- Numbers whose leading digit has an exponent between `least` and `greatest` are written with
their digits in place, all others with an exponent. -/
structure Notation where
  least : Int
  greatest : Int
  plus : String

namespace Notation

/-- JSON marks a positive exponent with a sign. -/
def json : Notation := ⟨-5, 15, "+"⟩

/-- YAML leaves the sign of a positive exponent out. -/
def yaml : Notation := ⟨-5, 15, ""⟩

def zeros (count : Nat) : String :=
  String.ofList (List.replicate count '0')

def positional (digits : String) (leading : Int) : String :=
  if leading < 0 then
    "0." ++ zeros (leading.natAbs - 1) ++ digits
  else
    let whole := leading.toNat + 1
    if digits.length ≤ whole then
      digits ++ zeros (whole - digits.length) ++ ".0"
    else
      (digits.take whole).toString ++ "." ++ (digits.drop whole).toString

def scientific (style : Notation) (digits : String) (leading : Int) : String :=
  let mantissa :=
    if digits.length = 1 then digits
    else (digits.take 1).toString ++ "." ++ (digits.drop 1).toString
  let sign := if leading < 0 then "-" else style.plus
  mantissa ++ "e" ++ sign ++ toString leading.natAbs

def magnitude (style : Notation) (decimal : Decimal) : String :=
  if decimal.digits = 0 then "0.0"
  else
    let written := toString decimal.digits
    let leading := decimal.exponent + written.length - 1
    let digits := (written.dropEndWhile '0').toString
    if style.least ≤ leading && leading ≤ style.greatest then positional digits leading
    else scientific style digits leading

def writeFloat (style : Notation) (bits : UInt64) : String :=
  let sign := if Binary.isNegative bits then "-" else ""
  sign ++ magnitude style (Decimal.shortest (Binary.ofBits bits))

def write (style : Notation) : Number → String
  | .int value => toString value
  | .float bits => writeFloat style bits

end Notation

/-- A number read as a version: whole numbers get one decimal place, with all their digits. -/
def Number.versionText : Number → String
  | .int value => toString value ++ ".0"
  | .float bits =>
    let value := Binary.ofBits bits
    if value.isWhole then
      (if Binary.isNegative bits then "-" else "") ++ toString value.floor ++ ".0"
    else Notation.json.writeFloat bits

end ApiDialect
