import ApiDialect.Yaml.Character

/-!
A place in a text. The column counts characters and decides indentation; the line and the offset,
which counts bytes of UTF-8, decide how far a key may be from its colon. The size of the text bounds
how far anything can be read on.
-/

namespace ApiDialect
namespace Yaml

structure Cursor where
  rest : List Char
  size : Nat
  line : Nat
  column : Nat
  offset : Nat

namespace Cursor

def byteCount (text : List Char) : Nat :=
  text.foldl (fun total char => total + char.utf8Size) 0

def start (text : List Char) : Cursor := ⟨text, byteCount text, 0, 0, 0⟩

/-- How many bytes remain, which are at least as many as the characters. -/
def left (cursor : Cursor) : Nat :=
  cursor.size - cursor.offset

/-- Moves over `taken`, which is text of the current line, to `rest` behind it. -/
def forward (cursor : Cursor) (taken rest : List Char) : Cursor :=
  { cursor with
    rest, column := cursor.column + taken.length, offset := cursor.offset + byteCount taken }

def skip (cursor : Cursor) (count : Nat) : Cursor :=
  cursor.forward (cursor.rest.take count) (cursor.rest.drop count)

/-- Characters of the current line that belong to a class. -/
def span (cursor : Cursor) (class' : Char → Bool) : List Char × Cursor :=
  let (taken, rest) := cursor.rest.span class'
  (taken, cursor.forward taken rest)

def skipWhile (cursor : Cursor) (class' : Char → Bool) : Cursor :=
  (cursor.span class').2

def nextLine (cursor : Cursor) (taken rest : List Char) : Cursor :=
  { cursor with
    rest, line := cursor.line + 1, column := 0, offset := cursor.offset + byteCount taken }

/-- Takes one line break. A carriage return with a line feed is one break, and every break but the
line and paragraph separators counts as a line feed. -/
def takeBreak (cursor : Cursor) : List Char × Cursor :=
  match cursor.rest with
  | '\r' :: '\n' :: rest => (['\n'], cursor.nextLine ['\r', '\n'] rest)
  | char :: rest =>
    if !isBreak char then ([], cursor)
    else if char = '\u2028' || char = '\u2029' then ([char], cursor.nextLine [char] rest)
    else (['\n'], cursor.nextLine [char] rest)
  | [] => ([], cursor)

def atEnd (cursor : Cursor) : Bool :=
  cursor.rest.isEmpty

def atBreak (cursor : Cursor) : Bool :=
  cursor.rest.head?.any isBreak

def atBlank (cursor : Cursor) : Bool :=
  cursor.rest.head?.any isBlank

def atBreakOrEnd (cursor : Cursor) : Bool :=
  cursor.atEnd || cursor.atBreak

def separated (cursor : Cursor) : Bool :=
  Yaml.separated cursor.rest

def startsWith (cursor : Cursor) (char : Char) : Bool :=
  cursor.rest.head? = some char

/-- Whether the character behind the current one is a separator or the end. -/
def separatedNext (cursor : Cursor) : Bool :=
  Yaml.separated (cursor.rest.drop 1)

/-- Three hyphens or three dots on their own at the start of a line. -/
def atDocumentMark (cursor : Cursor) : Bool :=
  cursor.column = 0 &&
    match cursor.rest with
    | '-' :: '-' :: '-' :: rest => Yaml.separated rest
    | '.' :: '.' :: '.' :: rest => Yaml.separated rest
    | _ => false

/-- Everything up to the end of the line, without the break. -/
def restOfLine (cursor : Cursor) : List Char × Cursor :=
  cursor.span fun char => !isBreak char

/-- Blanks and a comment at the end of a line, which must then be over. -/
def finishLine? (cursor : Cursor) : Option Cursor :=
  let cursor := cursor.skipWhile isBlank
  let cursor := if cursor.startsWith '#' then cursor.restOfLine.2 else cursor
  if cursor.atBreakOrEnd then some cursor.takeBreak.2 else none

end Cursor
end Yaml
end ApiDialect
