import ApiDialect.Text.Hex
import ApiDialect.Value
import ApiDialect.Decimal.Reading

/-!
The tokens of JSON text. A scanner that succeeds has consumed the whole text, and every token
but a number ends by itself.
-/

namespace ApiDialect
namespace Json

inductive Token where
  | beginObject
  | endObject
  | beginArray
  | endArray
  | colon
  | comma
  | scalar (value : Value)
  deriving Inhabited

/-- Blanks between tokens. -/
def isBlank (char : Char) : Bool :=
  char = ' ' || char = '\t' || char = '\n' || char = '\r'

/-- Two UTF-16 units that stand for one character above `0xFFFF`. -/
def ofSurrogates? (high low : Nat) : Option Char :=
  if 0xD800 ≤ high ∧ high < 0xDC00 ∧ 0xDC00 ≤ low ∧ low < 0xE000 then
    some (Char.ofNat (0x10000 + (high - 0xD800) * 0x400 + (low - 0xDC00)))
  else none

def ofUnit? (unit : Nat) : Option Char :=
  if 0xD800 ≤ unit ∧ unit < 0xE000 then none else some (Char.ofNat unit)

/-- The character that a short escape stands for. -/
def escaped? : Char → Option Char
  | '"' => some '"'
  | '\\' => some '\\'
  | '/' => some '/'
  | 'b' => some '\x08'
  | 'f' => some '\x0c'
  | 'n' => some '\n'
  | 'r' => some '\r'
  | 't' => some '\t'
  | _ => none

/-- The text up to the closing quote and what follows it. Control characters must be escaped and
surrogates come in pairs. -/
def unquote (done : List Char) : List Char → Option (String × List Char)
  | [] => none
  | '"' :: rest => some (String.ofList done.reverse, rest)
  | '\\' :: 'u' :: a :: b :: c :: d :: '\\' :: 'u' :: e :: f :: g :: h :: rest =>
    match Hex.ofDigits? [a, b, c, d] with
    | none => none
    | some unit =>
      match ofUnit? unit with
      | some char => unquote (char :: done) ('\\' :: 'u' :: e :: f :: g :: h :: rest)
      | none =>
        match (Hex.ofDigits? [e, f, g, h]).bind (ofSurrogates? unit) with
        | some char => unquote (char :: done) rest
        | none => none
  | '\\' :: 'u' :: a :: b :: c :: d :: rest =>
    match (Hex.ofDigits? [a, b, c, d]).bind ofUnit? with
    | some char => unquote (char :: done) rest
    | none => none
  | '\\' :: short :: rest =>
    match escaped? short with
    | some char => unquote (char :: done) rest
    | none => none
  | char :: rest => if char < ' ' then none else unquote (char :: done) rest

def digitsOf (input : List Char) : List Char × List Char :=
  input.span Char.isDigit

/-- The digits after a mark; at least one is required when the mark stands. -/
def fraction? (input : List Char) : Option (List Char × List Char) :=
  match input with
  | '.' :: rest =>
    let (digits, rest) := digitsOf rest
    if digits.isEmpty then none else some (digits, rest)
  | _ => some ([], input)

def exponentDigits? (negative : Bool) (input : List Char) : Option (Int × List Char) :=
  let (digits, rest) := digitsOf input
  if digits.isEmpty then none
  else
    let size : Int := Decimal.ofDigits digits
    some (if negative then -size else size, rest)

def exponent? (input : List Char) : Option (Option Int × List Char) :=
  let signed (rest : List Char) : Option (Int × List Char) :=
    match rest with
    | '+' :: rest => exponentDigits? false rest
    | '-' :: rest => exponentDigits? true rest
    | _ => exponentDigits? false rest
  match input with
  | 'e' :: rest | 'E' :: rest => (signed rest).map fun (size, rest) => (some size, rest)
  | _ => some (none, input)

def float (negative : Bool) (magnitude : Float) : Number :=
  .float (if negative then -magnitude else magnitude).toBits

/-- Whole numbers that fit 64 bits stay integers; `-0` and larger ones are floats. -/
def whole? (negative : Bool) (digits : List Char) : Option Number :=
  let value := Decimal.ofDigits digits
  if negative then
    if 0 < value ∧ value ≤ Nat.pow 2 63 then some (.int (-value))
    else (Decimal.scaledParts digits [] 0).map (float true)
  else if value < Nat.pow 2 64 then some (.int value)
  else (Decimal.scaledParts digits [] 0).map (float false)

/-- A number after its sign. A leading zero stands alone. -/
def magnitude? (negative : Bool) (input : List Char) : Option (Number × List Char) := do
  let (whole, rest) := digitsOf input
  if whole.isEmpty || (whole.length > 1 && whole.head? = some '0') then none
  else
    let (fraction, rest) ← fraction? rest
    let (exponent, rest) ← exponent? rest
    if fraction.isEmpty && exponent.isNone then
      return (← whole? negative whole, rest)
    else
      let size ← Decimal.scaledParts whole fraction (exponent.getD 0)
      return (float negative size, rest)

def number? : List Char → Option (Number × List Char)
  | '-' :: rest => magnitude? true rest
  | input => magnitude? false input

/-- The first token of a text that starts with no blank. -/
def token? : List Char → Option (Token × List Char)
  | '{' :: rest => some (.beginObject, rest)
  | '}' :: rest => some (.endObject, rest)
  | '[' :: rest => some (.beginArray, rest)
  | ']' :: rest => some (.endArray, rest)
  | ':' :: rest => some (.colon, rest)
  | ',' :: rest => some (.comma, rest)
  | '"' :: rest => (unquote [] rest).map fun (text, rest) => (.scalar (.str text), rest)
  | 'n' :: 'u' :: 'l' :: 'l' :: rest => some (.scalar .null, rest)
  | 't' :: 'r' :: 'u' :: 'e' :: rest => some (.scalar (.bool true), rest)
  | 'f' :: 'a' :: 'l' :: 's' :: 'e' :: rest => some (.scalar (.bool false), rest)
  | input => (number? input).map fun (value, rest) => (.scalar (.num value), rest)

def scanFrom (done : List Token) : Nat → List Char → Option (List Token)
  | _, [] => some done.reverse
  | 0, _ :: _ => none
  | fuel + 1, char :: rest =>
    if isBlank char then scanFrom done fuel rest
    else
      match token? (char :: rest) with
      | some (token, rest) => scanFrom (token :: done) fuel rest
      | none => none

/-- Every step consumes a character, so the length of the text is enough fuel. -/
def scan (input : List Char) : Option (List Token) :=
  scanFrom [] input.length input

end Json
end ApiDialect
