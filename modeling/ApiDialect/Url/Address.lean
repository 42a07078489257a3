import ApiDialect.Text.Hex
import ApiDialect.Text.Search

/-!
Numeric hosts: addresses of four bytes, whose parts may be written in three radixes and cut
short, and addresses of eight 16-bit pieces.
-/

namespace ApiDialect
namespace Address

private def number? (radix : Nat) (digits : List Char) : Option Nat :=
  digits.foldlM (fun total digit => do
    let value ← Hex.value? digit
    if value < radix then some (total * radix + value) else none) 0

/-- A part of an address of four bytes. A leading zero marks an octal number and `0x` a
hexadecimal one, and each of the two marks alone is zero. -/
def part? : List Char → Option Nat
  | [] => none
  | '0' :: 'x' :: digits | '0' :: 'X' :: digits => number? 16 digits
  | ['0'] => some 0
  | '0' :: digits => number? 8 digits
  | digits => number? 10 digits

/-- The labels of a host name without the empty one behind a dot at its end. -/
private def labels (host : List Char) : List (List Char) :=
  let pieces := Text.splitChars '.' host
  if pieces.getLast? = some [] then pieces.dropLast else pieces

/-- A host whose last label is a number is read as an address and nothing else. -/
def endsInNumber (host : List Char) : Bool :=
  match (labels host).getLast? with
  | none => false
  | some label => (!label.isEmpty && label.all Char.isDigit) || (part? label).isSome

/-- The last part fills all bytes that the others leave over. -/
private def combine? (parts : List Nat) : Option Nat :=
  match parts.reverse with
  | [] => none
  | last :: before =>
    let leading := before.reverse
    if leading.any (· > 255) || last ≥ Nat.pow 256 (4 - leading.length) then none
    else some (leading.foldr (fun byte total => (byte * Nat.pow 256 4 + total) / 256) 0 + last)

/-- The four bytes of an address as one number. -/
def bytes? (host : List Char) : Option Nat :=
  let pieces := labels host
  if pieces.length > 4 then none
  else (pieces.mapM part?).bind combine?

/-- Four decimal numbers with dots between them. -/
def showBytes (address : Nat) : String :=
  String.intercalate "." ([3, 2, 1, 0].map fun place => toString (address / Nat.pow 256 place % 256))

/-- A byte in decimal without superfluous zeros. -/
private def decimalByte? (digits : List Char) : Option Nat :=
  match digits with
  | [] => none
  | ['0'] => some 0
  | '0' :: _ => none
  | _ => (number? 10 digits).bind fun value => if value ≤ 255 then some value else none

private def embedded? (text : List Char) : Option (List Nat) :=
  match (Text.splitChars '.' text).mapM decimalByte? with
  | some [a, b, c, d] => some [a * 256 + b, c * 256 + d]
  | _ => none

private def piece? (digits : List Char) : Option Nat :=
  if digits.isEmpty || digits.length > 4 then none else number? 16 digits

/-- Pieces with colons between them. The last two may be written as four bytes when the text goes
to the end of the address. -/
private def pieces? (toEnd : Bool) : List (List Char) → Option (List Nat)
  | [] => some []
  | [last] => if toEnd && last.contains '.' then embedded? last else (piece? last).map ([·])
  | first :: rest => do
    let piece ← piece? first
    let others ← pieces? toEnd rest
    return piece :: others

private def group? (toEnd : Bool) (text : List Char) : Option (List Nat) :=
  if text.isEmpty then some [] else pieces? toEnd (Text.splitChars ':' text)

/-- The texts before and behind the first double colon. -/
private def splitGap? : List Char → Option (List Char × List Char)
  | ':' :: ':' :: rest => some ([], rest)
  | char :: rest => (splitGap? rest).map fun (before, behind) => (char :: before, behind)
  | [] => none

/-- Eight pieces. A double colon stands for as many zeros as are missing, at least one. -/
def wide? (text : List Char) : Option (List Nat) :=
  match splitGap? text with
  | none => (group? true text).bind fun pieces => if pieces.length = 8 then some pieces else none
  | some (before, behind) => do
    let front ← group? false before
    let back ← group? true behind
    if front.length + back.length ≤ 7 then
      return front ++ List.replicate (8 - front.length - back.length) 0 ++ back
    else none

private def zeroRun (pieces : List Nat) : Nat :=
  (pieces.takeWhile (· = 0)).length

/-- Start and length of the first of the longest runs of zeros, when that has two or more. -/
private def longestGap? (pieces : List Nat) : Option (Nat × Nat) :=
  let runs := (List.range pieces.length).map fun start => (start, zeroRun (pieces.drop start))
  runs.foldl (fun best run =>
    match best with
    | some (_, length) => if run.2 > length then some run else best
    | none => if run.2 ≥ 2 then some run else none) none

private def joinHex (pieces : List Nat) : String :=
  String.intercalate ":" (pieces.map fun piece => String.ofList (Nat.toDigits 16 piece))

/-- The shortest way to write eight pieces. -/
def showWide (pieces : List Nat) : String :=
  match longestGap? pieces with
  | none => joinHex pieces
  | some (start, length) =>
    joinHex (pieces.take start) ++ "::" ++ joinHex (pieces.drop (start + length))

end Address
end ApiDialect
