import ApiDialect.Value
import ApiDialect.Decimal.Reading

/-!
What a plain scalar stands for: the core schema of YAML 1.2, with binary integers added. The
reader uses it to give unquoted text a type, the printer to see which strings need quotes.
-/

namespace ApiDialect
namespace Yaml

inductive Plain where
  | null
  | bool (value : Bool)
  | int (value : Int)
  | float (value : Float)
  | text

namespace Plain

private def digitValue (char : Char) : Nat :=
  if '0' ≤ char ∧ char ≤ '9' then char.toNat - '0'.toNat
  else if 'a' ≤ char ∧ char ≤ 'z' then char.toNat - 'a'.toNat + 10
  else if 'A' ≤ char ∧ char ≤ 'Z' then char.toNat - 'A'.toNat + 10
  else 36

/-- A non-empty run of digits of the radix. -/
def natural? (radix : Nat) (digits : List Char) : Option Nat :=
  if digits.isEmpty then none
  else digits.foldlM (fun total digit =>
    if digitValue digit < radix then some (total * radix + digitValue digit) else none) 0

/-- An unsigned integer: `0x`, `0o` and `0b` choose the radix, and digits that start with a
superfluous zero are no number. -/
def unsigned? : List Char → Option Nat
  | '0' :: 'x' :: rest => natural? 16 rest
  | '0' :: 'o' :: rest => natural? 8 rest
  | '0' :: 'b' :: rest => natural? 2 rest
  | '0' :: next :: rest => if (next :: rest).all Char.isDigit then none else natural? 10 ('0' :: next :: rest)
  | digits => natural? 10 digits

/-- Integers of at most 128 bits. -/
def int? (text : List Char) : Option Int :=
  let bounded (value : Int) : Option Int :=
    if -Int.pow 2 127 ≤ value ∧ value < Int.pow 2 128 then some value else none
  match text with
  | '+' :: rest => (unsigned? rest).bind fun value => bounded value
  | '-' :: rest => (unsigned? rest).bind fun value => bounded (-value)
  | _ => (unsigned? text).bind fun value => bounded value

/-- A sign may stand before digits that start with a superfluous zero. -/
def isPadded (text : List Char) : Bool :=
  let digits := match text with
    | '+' :: rest | '-' :: rest => rest
    | _ => text
  match digits with
  | '0' :: next :: rest => (next :: rest).all Char.isDigit
  | _ => false

private def exponent? : List Char → Option Int
  | [] => some 0
  | mark :: rest =>
    if mark = 'e' ∨ mark = 'E' then
      match rest with
      | '+' :: digits => (natural? 10 digits).map Int.ofNat
      | '-' :: digits => (natural? 10 digits).map fun value => -Int.ofNat value
      | digits => (natural? 10 digits).map Int.ofNat
    else none

/-- Digits with an optional point, at least one of them, and an optional exponent. -/
private def magnitude? (text : List Char) : Option Float := do
  let (whole, rest) := text.span Char.isDigit
  let (fraction, rest) := match rest with
    | '.' :: rest => rest.span Char.isDigit
    | _ => ([], rest)
  if whole.isEmpty && fraction.isEmpty then none
  else
    let exponent ← exponent? rest
    let value := Decimal.nearest (Decimal.ofDigits (whole ++ fraction)) (exponent - fraction.length)
    if value.isInf then none else some value

private def infinity : Float := Float.ofScientific 1 false 400

/-- A number too large for a float is no number. -/
def float? (text : List Char) : Option Float :=
  if text ∈ [".inf", ".Inf", ".INF", "+.inf", "+.Inf", "+.INF"].map String.toList then some infinity
  else if text ∈ ["-.inf", "-.Inf", "-.INF"].map String.toList then some (-infinity)
  else if text ∈ [".nan", ".NaN", ".NAN"].map String.toList then some (0 / 0)
  else
    match text with
    | '+' :: rest => magnitude? rest
    | '-' :: rest => (magnitude? rest).map fun value => -value
    | _ => magnitude? text

def bool? (text : String) : Option Bool :=
  if text ∈ ["true", "True", "TRUE"] then some true
  else if text ∈ ["false", "False", "FALSE"] then some false
  else none

def isNull (text : String) : Bool :=
  text ∈ ["null", "Null", "NULL", "~"]

/-- The type of unquoted text; nothing at all is null. -/
def ofText (text : String) : Plain :=
  if text.isEmpty || isNull text then .null
  else
    match bool? text with
    | some value => .bool value
    | none =>
      match int? text.toList with
      | some value => .int value
      | none =>
        if isPadded text.toList then .text
        else
          match float? text.toList with
          | some value => .float value
          | none => .text

/-- Integers of more than 64 bits have no place in a document, and no document holds an infinity. -/
def value? (text : String) : Plain → Option Value
  | .null => some .null
  | .bool value => some (.bool value)
  | .int value =>
    if -Int.pow 2 63 ≤ value ∧ value < Int.pow 2 64 then some (.num (.int value)) else none
  | .float value => some (if value.isFinite then .num (.float value.toBits) else .null)
  | .text => some (.str text)

end Plain
end Yaml
end ApiDialect
