import ApiDialect.Decimal.Reading
import ApiDialect.Yaml.Tag
import ApiDialect.Yaml.Text

/-!
The tokens of a YAML text, and those among them that are read without regard to indentation:
anchors, tags and directives.
-/

namespace ApiDialect
namespace Yaml

inductive Token where
  | versionDirective (major minor : Nat)
  | tagDirective (handle : String) (beginning : Tag)
  | documentStart
  | documentEnd
  | blockSequenceStart
  | blockMappingStart
  | blockEnd
  | flowSequenceStart
  | flowSequenceEnd
  | flowMappingStart
  | flowMappingEnd
  | entry
  | flowEntry
  | key
  | value
  | alias (name : String)
  | anchor (name : String)
  | tag (handle : String) (suffix : Tag)
  | scalar (text : String) (isPlain : Bool)
  deriving DecidableEq, Inhabited

namespace Token

/-- Characters of anchors, tag handles and directive names. -/
private def isWord (char : Char) : Bool :=
  char.isAlphanum || char = '_' || char = '-'

/-- A name behind `&` or `*`, which must end at blank space or an indicator. -/
def name? (cursor : Cursor) : Option (String × Cursor) :=
  let (name, cursor) := (cursor.skip 1).span isWord
  if name.isEmpty then none
  else if cursor.separated || cursor.rest.head?.any ("?:,]\x7d%@\x60".toList.contains ·) then
    some (String.ofList name, cursor)
  else none

/-- Characters of a tag's suffix; `verbatim` ones may include flow indicators. -/
private def isSuffix (verbatim : Bool) (char : Char) : Bool :=
  isWord char || ";/?:@&=+$.!~*'()".toList.contains char ||
    (verbatim && (char = ',' || char = '[' || char = ']'))

private def escapedByte? : List Char → Option (UInt8 × List Char)
  | '%' :: high :: low :: rest => do
    let code ← Hex.ofDigits? [high, low]
    return (code.toUInt8, rest)
  | _ => none

/-- How many bytes the character has that starts with this byte. -/
private def byteCount? (byte : UInt8) : Option Nat :=
  if byte < 0x80 then some 1
  else if byte < 0xC0 then none
  else if byte < 0xE0 then some 2
  else if byte < 0xF0 then some 3
  else if byte < 0xF8 then some 4
  else none

/-- Bytes that go on with a character. -/
private def continued? : Nat → List UInt8 → List Char → Option (List UInt8 × List Char)
  | 0, done, rest => some (done, rest)
  | count + 1, done, rest => do
    let (byte, rest) ← escapedByte? rest
    if 0x80 ≤ byte && byte < 0xC0 then continued? count (byte :: done) rest else none

/-- One character written as its bytes in hexadecimal, newest byte first. Only the kind of each byte
is looked at. -/
private def escaped? (done : List UInt8) (rest : List Char) : Option (List UInt8 × List Char) := do
  let (first, rest) ← escapedByte? rest
  let count ← byteCount? first
  continued? (count - 1) (first :: done) rest

private def suffixFrom (verbatim : Bool) : Nat → List UInt8 → List Char →
    Option (List UInt8 × List Char)
  | 0, _, _ => none
  | fuel + 1, done, rest =>
    match rest with
    | '%' :: _ =>
      match escaped? done rest with
      | some (done, rest) => suffixFrom verbatim fuel done rest
      | none => none
    | char :: others =>
      if isSuffix verbatim char then suffixFrom verbatim fuel (char.toNat.toUInt8 :: done) others
      else some (done.reverse, rest)
    | [] => some (done.reverse, [])

private def suffix? (verbatim : Bool) (cursor : Cursor) : Option (List UInt8 × Cursor) := do
  let (bytes, rest) ← suffixFrom verbatim (cursor.rest.length + 1) [] cursor.rest
  return (bytes, cursor.skip (cursor.rest.length - rest.length))

/-- An exclamation mark, a word and perhaps another exclamation mark. -/
private def handle? (cursor : Cursor) : Option (List Char × Cursor) :=
  if cursor.startsWith '!' then
    let (word, cursor) := (cursor.skip 1).span isWord
    if cursor.startsWith '!' then some ('!' :: word ++ ['!'], cursor.skip 1)
    else some ('!' :: word, cursor)
  else none

private def verbatimTag? (cursor : Cursor) : Option (Token × Cursor) := do
  let (suffix, cursor) ← suffix? true (cursor.skip 2)
  if suffix.isEmpty || !cursor.startsWith '>' then none
  else return (.tag "" (.ofBytes suffix), cursor.skip 1)

private def shorthandTag? (cursor : Cursor) : Option (Token × Cursor) := do
  let (handle, behind) ← handle? cursor
  let (suffix, cursor) ← suffix? false behind
  if handle.length > 1 && handle.getLast? = some '!' then
    if suffix.isEmpty then none
    else return (.tag (String.ofList handle) (.ofBytes suffix), cursor)
  else
    let suffix := (Tag.ofText (String.ofList (handle.drop 1))).append (.ofBytes suffix)
    if suffix.bytes.isEmpty then return (.tag "" .mark, cursor)
    else return (.tag "!" suffix, cursor)

/-- A tag with its handle; an empty handle stands before a complete tag. -/
def tag? (inFlow : Bool) (cursor : Cursor) : Option (Token × Cursor) := do
  let verbatim := (cursor.rest.drop 1).head? = some '<'
  let (token, cursor) ← if verbatim then verbatimTag? cursor else shorthandTag? cursor
  if (inFlow && cursor.startsWith ',') || cursor.separated then return (token, cursor) else none

private def versionNumber? (cursor : Cursor) : Option (Nat × Cursor) :=
  let (digits, cursor) := cursor.span Char.isDigit
  if digits.isEmpty || digits.length > 9 then none
  else some (Decimal.ofDigits digits, cursor)

private def version? (cursor : Cursor) : Option (Token × Cursor) := do
  let (major, cursor) ← versionNumber? (cursor.skipWhile isBlank)
  if cursor.startsWith '.' then
    let (minor, cursor) ← versionNumber? (cursor.skip 1)
    return (.versionDirective major minor, cursor)
  else none

private def tagDirective? (cursor : Cursor) : Option (Token × Cursor) := do
  let (handle, cursor) ← handle? (cursor.skipWhile isBlank)
  if (handle = ['!'] || (handle.length > 1 && handle.getLast? = some '!')) && cursor.atBlank then
    let (beginning, cursor) ← suffix? true (cursor.skipWhile isBlank)
    if beginning.isEmpty || !cursor.separated then none
    else return (.tagDirective (String.ofList handle) (.ofBytes beginning), cursor)
  else none

/-- A line that starts with a percent sign. -/
def directive? (cursor : Cursor) : Option (Token × Cursor) := do
  let (name, cursor) := (cursor.skip 1).span isWord
  if !cursor.separated then none
  else
    let (token, cursor) ←
      if name = "YAML".toList then version? cursor
      else if name = "TAG".toList then tagDirective? cursor
      else none
    let cursor ← cursor.finishLine?
    return (token, cursor)

end Token
end Yaml
end ApiDialect
