import ApiDialect.Yaml.Token

/-!
The token sequence of a text. Indentation opens and closes block collections, and a colon turns
the scalar or collection before it into a key, so tokens are also inserted behind ones that have
been read.
-/

namespace ApiDialect
namespace Yaml

/-- A place in the token sequence that becomes a key when a colon follows on the same line. It is
required where only a key can stand. -/
structure PossibleKey where
  required : Bool
  number : Nat
  line : Nat
  column : Nat
  offset : Nat

/-- What has been read so far. `indent` is the column of the innermost block collection and `outer`
those around it; `key` belongs to the innermost flow collection and `outerKeys` to those around. -/
structure Scan where
  cursor : Cursor
  done : List Token
  count : Nat
  indent : Int
  outer : List Int
  key : Option PossibleKey
  outerKeys : List (Option PossibleKey)
  keyAllowed : Bool

namespace Scan

def start (text : List Char) : Scan :=
  { cursor := Cursor.start text, done := [], count := 0, indent := -1, outer := [], key := none,
    outerKeys := [], keyAllowed := true }

def inFlow (scan : Scan) : Bool :=
  !scan.outerKeys.isEmpty

def push (scan : Scan) (token : Token) : Scan :=
  { scan with done := token :: scan.done, count := scan.count + 1 }

/-- Puts a token before the one with this number. -/
def insertAt (scan : Scan) (number : Nat) (token : Token) : Scan :=
  let (newer, older) := scan.done.splitAt (scan.count - number)
  { scan with done := newer ++ token :: older, count := scan.count + 1 }

/-- Reads characters and then appends the token they form. -/
def take (scan : Scan) (size : Nat) (token : Token) : Scan :=
  { scan with cursor := scan.cursor.skip size }.push token

def closeFrom (column : Int) (scan : Scan) : List Int → Scan
  | [] => scan
  | next :: rest =>
    if scan.indent > column then
      closeFrom column { scan.push .blockEnd with indent := next, outer := rest } rest
    else scan

/-- Ends every block collection that is indented deeper. -/
def close (scan : Scan) (column : Int) : Scan :=
  if scan.inFlow then scan else closeFrom column scan scan.outer

/-- Begins a block collection when the column is deeper than the current one. -/
def openBlock (scan : Scan) (column : Nat) (add : Scan → Scan) : Scan :=
  if !scan.inFlow && scan.indent < column then
    { add scan with indent := column, outer := scan.indent :: scan.outer }
  else scan

/-- A key that must not be given up is an error when it is. -/
def dropKey? (scan : Scan) : Option Scan :=
  if scan.key.any PossibleKey.required then none else some { scan with key := none }

/-- Marks the current place as a key to be, where one may stand. -/
def saveKey? (scan : Scan) : Option Scan :=
  if scan.keyAllowed then do
    let cursor := scan.cursor
    let key : PossibleKey :=
      { required := !scan.inFlow && scan.indent = cursor.column, number := scan.count,
        line := cursor.line, column := cursor.column, offset := cursor.offset }
    return { (← scan.dropKey?) with key := some key }
  else some scan

def fresh? (cursor : Cursor) : Option PossibleKey → Option (Option PossibleKey)
  | none => some none
  | some key =>
    if key.line < cursor.line || key.offset + 1024 < cursor.offset then
      if key.required then none else some none
    else some (some key)

/-- A key ends on the line on which it starts and within 1024 bytes. -/
def expireKeys? (scan : Scan) : Option Scan := do
  let key ← fresh? scan.cursor scan.key
  let outerKeys ← scan.outerKeys.mapM (fresh? scan.cursor)
  return { scan with key, outerKeys }

/-- Blanks, comments and breaks before a token. A tab does not stand where a key may start. -/
def skipSpaceFrom : Nat → Scan → Scan
  | 0, scan => scan
  | fuel + 1, scan =>
    let cursor := scan.cursor
    let cursor := if cursor.column = 0 && cursor.startsWith '\uFEFF' then cursor.skip 1 else cursor
    let tabs := scan.inFlow || !scan.keyAllowed
    let cursor := cursor.skipWhile fun char => char = ' ' || (tabs && char = '\t')
    let cursor := if cursor.startsWith '#' then cursor.restOfLine.2 else cursor
    if cursor.atBreak then
      skipSpaceFrom fuel
        { scan with cursor := cursor.takeBreak.2, keyAllowed := scan.keyAllowed || !scan.inFlow }
    else { scan with cursor }

def skipSpace (scan : Scan) : Scan :=
  skipSpaceFrom (scan.cursor.left + 1) scan

def directive? (scan : Scan) : Option Scan := do
  let scan ← (scan.close (-1)).dropKey?
  let (token, cursor) ← Token.directive? scan.cursor
  return { scan with cursor, keyAllowed := false }.push token

def documentMark? (scan : Scan) : Option Scan := do
  let scan ← (scan.close (-1)).dropKey?
  let token := if scan.cursor.startsWith '-' then Token.documentStart else Token.documentEnd
  return { scan with keyAllowed := false }.take 3 token

def flowStart? (scan : Scan) (token : Token) : Option Scan := do
  let scan ← scan.saveKey?
  return { scan with
    key := none, outerKeys := scan.key :: scan.outerKeys, keyAllowed := true }.take 1 token

def flowEnd? (scan : Scan) (token : Token) : Option Scan := do
  let scan ← scan.dropKey?
  let scan := match scan.outerKeys with
    | [] => scan
    | key :: outerKeys => { scan with key, outerKeys }
  return { scan with keyAllowed := false }.take 1 token

def flowEntry? (scan : Scan) : Option Scan := do
  let scan ← scan.dropKey?
  return { scan with keyAllowed := true }.take 1 .flowEntry

def entry? (scan : Scan) : Option Scan := do
  if !scan.inFlow && !scan.keyAllowed then none
  else
    let scan ← (scan.openBlock scan.cursor.column (·.push .blockSequenceStart)).dropKey?
    return { scan with keyAllowed := true }.take 1 .entry

def key? (scan : Scan) : Option Scan := do
  if !scan.inFlow && !scan.keyAllowed then none
  else
    let scan ← (scan.openBlock scan.cursor.column (·.push .blockMappingStart)).dropKey?
    return { scan with keyAllowed := !scan.inFlow }.take 1 .key

def value? (scan : Scan) : Option Scan :=
  match scan.key with
  | some key =>
    let scan := scan.insertAt key.number .key
    let scan := scan.openBlock key.column (·.insertAt key.number .blockMappingStart)
    some ({ scan with key := none, keyAllowed := false }.take 1 .value)
  | none =>
    if !scan.inFlow && !scan.keyAllowed then none
    else
      let scan := scan.openBlock scan.cursor.column (·.push .blockMappingStart)
      some ({ scan with keyAllowed := !scan.inFlow }.take 1 .value)

def named? (scan : Scan) (token : String → Token) : Option Scan := do
  let scan ← scan.saveKey?
  let (name, cursor) ← Token.name? scan.cursor
  return { scan with cursor, keyAllowed := false }.push (token name)

def tag? (scan : Scan) : Option Scan := do
  let scan ← scan.saveKey?
  let (token, cursor) ← Token.tag? scan.inFlow scan.cursor
  return { scan with cursor, keyAllowed := false }.push token

def blockScalar? (scan : Scan) (literal : Bool) : Option Scan := do
  let scan ← scan.dropKey?
  let scalar ← ScalarText.block literal scan.indent (scan.cursor.skip 1)
  return { scan with cursor := scalar.cursor, keyAllowed := true }.push
    (.scalar (String.ofList scalar.text) false)

def quotedScalar? (scan : Scan) (single : Bool) : Option Scan := do
  let scan ← scan.saveKey?
  let scalar ← ScalarText.quoted single (scan.cursor.skip 1)
  return { scan with cursor := scalar.cursor, keyAllowed := false }.push
    (.scalar (String.ofList scalar.text) false)

def plainScalar? (scan : Scan) : Option Scan := do
  let scan ← scan.saveKey?
  let scalar ← ScalarText.plain (scan.indent + 1) scan.inFlow scan.cursor
  return { scan with cursor := scalar.cursor, keyAllowed := scalar.fresh }.push
    (.scalar (String.ofList scalar.text) true)

/-- Characters that start a plain scalar only when text follows them, or never. -/
def isIndicator (char : Char) : Bool :=
  "-?:,[]\x7b\x7d#&*!|>'\"%@\x60".toList.contains char

def startsPlain (scan : Scan) (char : Char) : Bool :=
  let cursor := scan.cursor
  !(isSeparator char || isIndicator char) ||
    (char = '-' && !(cursor.skip 1).atBlank) ||
    (!scan.inFlow && (char = '?' || char = ':') && !cursor.separatedNext)

/-- Reads one token that starts with `char`. -/
def token? (scan : Scan) (char : Char) : Option Scan :=
  let cursor := scan.cursor
  if cursor.column = 0 && char = '%' then scan.directive?
  else if cursor.atDocumentMark then scan.documentMark?
  else
    match char with
    | '[' => scan.flowStart? .flowSequenceStart
    | '{' => scan.flowStart? .flowMappingStart
    | ']' => scan.flowEnd? .flowSequenceEnd
    | '}' => scan.flowEnd? .flowMappingEnd
    | ',' => scan.flowEntry?
    | '*' => scan.named? .alias
    | '&' => scan.named? .anchor
    | '!' => scan.tag?
    | '\'' => scan.quotedScalar? true
    | '"' => scan.quotedScalar? false
    | _ =>
      if char = '-' && cursor.separatedNext then scan.entry?
      else if char = '?' && (scan.inFlow || cursor.separatedNext) then scan.key?
      else if char = ':' && (scan.inFlow || cursor.separatedNext) then scan.value?
      else if char = '|' && !scan.inFlow then scan.blockScalar? true
      else if char = '>' && !scan.inFlow then scan.blockScalar? false
      else if scan.startsPlain char then scan.plainScalar?
      else none

def tokensFrom : Nat → Scan → Option (List Token)
  | 0, _ => none
  | fuel + 1, scan => do
    let scan ← scan.skipSpace.expireKeys?
    let scan := scan.close scan.cursor.column
    match scan.cursor.rest with
    | [] =>
      let scan ← (scan.close (-1)).dropKey?
      return scan.done.reverse
    | char :: _ => tokensFrom fuel (← scan.token? char)

/-- Characters that may occur in a text at all. -/
def isAllowed (char : Char) : Bool :=
  let code := char.toNat
  code = 0x09 || code = 0x0A || code = 0x0D || (0x20 ≤ code && code ≤ 0x7E) || code = 0x85 ||
    (0xA0 ≤ code && code ≠ 0xFFFE && code ≠ 0xFFFF)

/-- Every token consumes a character, so the length of the text bounds the number of steps. -/
def tokens? (text : String) : Option (List Token) :=
  let chars := text.toList
  if chars.all isAllowed then tokensFrom (chars.length + 1) (start chars) else none

end Scan
end Yaml
end ApiDialect
