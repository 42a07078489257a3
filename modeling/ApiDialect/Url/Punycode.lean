/-!
Text in ASCII that stands for other text: its ASCII characters, and then numbers that say which other
characters belong where. A number is written in the digits from `a` to `9`, and how many it takes
adapts to the numbers before it.
-/

namespace ApiDialect
namespace Punycode

def isBasic (char : Char) : Bool :=
  char.toNat < 0x80

private def digit (value : Nat) : Char :=
  if value < 26 then Char.ofNat ('a'.toNat + value) else Char.ofNat ('0'.toNat + (value - 26))

private def digitValue? (char : Char) : Option Nat :=
  if 'a' ≤ char ∧ char ≤ 'z' then some (char.toNat - 'a'.toNat)
  else if '0' ≤ char ∧ char ≤ '9' then some (char.toNat - '0'.toNat + 26)
  else none

/-- A digit below the threshold of its place is the last one of its number. -/
private def threshold (bias place : Nat) : Nat :=
  if place ≤ bias then 1 else min 26 (place - bias)

/-- Every division by 35 is worth a place. -/
private def shrink (delta places : Nat) : Nat × Nat :=
  if delta > 455 then shrink (delta / 35) (places + 36) else (delta, places)
termination_by delta
decreasing_by omega

/-- What to expect of the number behind one that leaves so many characters in their places. -/
private def adapt (delta placed : Nat) (first : Bool) : Nat :=
  let delta := if first then delta / 700 else delta / 2
  let (delta, places) := shrink (delta + delta / placed) 0
  places + 36 * delta / (delta + 38)

private def number (bias place value : Nat) : List Char :=
  let limit := threshold bias place
  if value < limit then [digit value]
  else
    let rest := value - limit
    digit (limit + rest % (36 - limit)) :: number bias (place + 36) (rest / (36 - limit))
termination_by value
decreasing_by
  have positive : 0 < threshold bias place := by unfold threshold; split <;> omega
  have quotient : (value - threshold bias place) / (36 - threshold bias place) ≤ value - threshold bias place :=
    Nat.div_le_self ..
  omega

/-- Characters are placed in the order of their codes, and those with the same code from the left. -/
private structure Progress where
  code : Nat
  delta : Nat
  bias : Nat
  placed : Nat
  written : List Char

/-- Writes a number for a character that has the code, and counts the characters that stand before the next one. -/
private def pass (basics : Nat) (progress : Progress) (char : Char) : Progress :=
  if char.toNat < progress.code then { progress with delta := progress.delta + 1 }
  else if char.toNat = progress.code then
    { progress with
      delta := 0
      bias := adapt progress.delta (progress.placed + 1) (progress.placed = basics)
      placed := progress.placed + 1
      written := progress.written ++ number progress.bias 36 progress.delta }
  else progress

private def place (text : List Char) (basics : Nat) (progress : Progress) (code : Nat) : Progress :=
  let skipped := (code - progress.code) * (progress.placed + 1)
  let progress := text.foldl (pass basics) { progress with code, delta := progress.delta + skipped }
  { progress with code := code + 1, delta := progress.delta + 1 }

def encode (text : List Char) : List Char :=
  let (basic, others) := text.partition isBasic
  let codes := ((others.map Char.toNat).mergeSort).eraseDups
  let progress := codes.foldl (place text basic.length) ⟨0x80, 0, 72, basic.length, []⟩
  (if basic.isEmpty then [] else basic ++ ['-']) ++ progress.written

private def char? (code : Nat) : Option Char :=
  if valid : code.isValidChar then some (Char.ofNatAux code valid) else none

/-- A text into which characters are being put, and the number that is read for the next one. -/
private structure Filling where
  text : List Char
  code : Nat
  start : Nat
  total : Nat
  weight : Nat
  place : Nat
  bias : Nat

/-- Reads a digit. The last one of a number says which character goes where. -/
private def fill (filling : Filling) (char : Char) : Option Filling := do
  let value ← digitValue? char
  let limit := threshold filling.bias filling.place
  let total := filling.total + value * filling.weight
  if limit ≤ value then
    return { filling with total, weight := filling.weight * (36 - limit), place := filling.place + 36 }
  let length := filling.text.length + 1
  let code := filling.code + total / length
  let position := total % length
  let next ← char? code
  return {
    text := filling.text.insertIdx position next
    code
    start := position + 1
    total := position + 1
    weight := 1
    place := 36
    bias := adapt (total - filling.start) length (filling.start = 0) }

/-- The ASCII characters stand before the last hyphen, which is left out when there is none, and no
number is left unfinished. -/
def decode? (text : List Char) : Option (List Char) := do
  let digits := (text.reverse.takeWhile (· ≠ '-')).reverse
  let basic := text.take (text.length - digits.length - 1)
  let filling ← (if basic.isEmpty then text else digits).foldlM fill ⟨basic, 0x80, 0, 0, 1, 36, 72⟩
  if basic.all isBasic && filling.place = 36 then some filling.text else none

end Punycode
end ApiDialect
