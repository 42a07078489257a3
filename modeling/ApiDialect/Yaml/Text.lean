import ApiDialect.Text.Hex
import ApiDialect.Yaml.Cursor

/-!
The text of scalars: plain and quoted ones, whose line breaks are folded, and block scalars, which
keep their lines.
-/

namespace ApiDialect
namespace Yaml

/-- Blank space inside a scalar: blanks on one line, or breaks with the blanks around them left
out. -/
structure Gap where
  blanks : List Char
  broken : Bool
  first : List Char
  more : List Char

namespace Gap

def none : Gap := ⟨[], false, [], []⟩

/-- An escaped break leaves nothing of itself. -/
def escapedBreak : Gap := ⟨[], true, [], []⟩

/-- A single line feed becomes a blank; the first of several is dropped. -/
def folded (gap : Gap) : List Char :=
  if !gap.broken then gap.blanks
  else if gap.first = ['\n'] then
    if gap.more.isEmpty then [' '] else gap.more
  else gap.first ++ gap.more

/-- Blank space up to the next character of the scalar. Behind a break a tab may not stand in the
first `margin` columns. -/
def take (margin : Int) : Nat → Gap → Cursor → Option (Gap × Cursor)
  | 0, gap, cursor => some (gap, cursor)
  | fuel + 1, gap, cursor =>
    match cursor.rest with
    | [] => some (gap, cursor)
    | char :: _ =>
      if isBlank char then
        if gap.broken && char = '\t' && (cursor.column : Int) < margin then Option.none
        else if gap.broken then take margin fuel gap (cursor.skip 1)
        else take margin fuel { gap with blanks := gap.blanks ++ [char] } (cursor.skip 1)
      else if isBreak char then
        let (text, cursor) := cursor.takeBreak
        if gap.broken then take margin fuel { gap with more := gap.more ++ text } cursor
        else take margin fuel ⟨[], true, text, []⟩ cursor
      else some (gap, cursor)

end Gap

/-- A scalar's text and what follows it; `fresh` says that the scalar ended behind a break. -/
structure ScalarText where
  text : List Char
  fresh : Bool
  cursor : Cursor

namespace ScalarText

def isFlowIndicator (char : Char) : Bool :=
  char = ',' || char = '[' || char = ']' || char = '\x7b' || char = '\x7d'

/-- Characters of a plain scalar up to blank space or an indicator, newest first. In a flow
collection a colon directly before an indicator is an error. -/
def plainRun (inFlow : Bool) (done : List Char) : List Char → Option (List Char × List Char)
  | [] => some (done, [])
  | char :: rest =>
    if isSeparator char then some (done, char :: rest)
    else if inFlow && char = ':' && rest.head?.any (fun next => isFlowIndicator next || next = '?') then
      none
    else if (char = ':' && separated rest) || (inFlow && isFlowIndicator char) then
      some (done, char :: rest)
    else plainRun inFlow (char :: done) rest

def plainFrom (margin : Int) (inFlow : Bool) :
    Nat → List Char → Gap → Cursor → Option ScalarText
  | 0, _, _, _ => none
  | fuel + 1, done, gap, cursor =>
    let stop : ScalarText := ⟨done.reverse, gap.broken, cursor⟩
    if cursor.atDocumentMark || cursor.startsWith '#' then some stop
    else
      match plainRun inFlow [] cursor.rest with
      | none => none
      | some (run, rest) =>
        let cursor := cursor.forward run rest
        let (done, gap) :=
          if run.isEmpty then (done, gap) else (run ++ gap.folded.reverse ++ done, Gap.none)
        if !(cursor.atBlank || cursor.atBreak) then some ⟨done.reverse, gap.broken, cursor⟩
        else
          match Gap.take margin (cursor.left + 1) gap cursor with
          | none => none
          | some (gap, cursor) =>
            if !inFlow && (cursor.column : Int) < margin then some ⟨done.reverse, gap.broken, cursor⟩
            else plainFrom margin inFlow fuel done gap cursor

/-- An unquoted scalar. Its continuation lines start at column `margin` or beyond, except in a
flow collection. -/
def plain (margin : Int) (inFlow : Bool) (cursor : Cursor) : Option ScalarText :=
  plainFrom margin inFlow (cursor.left + 1) [] Gap.none cursor

/-- A part of a quoted scalar without blank space, newest character first. -/
structure Run where
  done : List Char
  cursor : Cursor
  escapedBreak : Bool

def singleRun (done : List Char) : Nat → Cursor → Option Run
  | 0, _ => none
  | fuel + 1, cursor =>
    match cursor.rest with
    | '\'' :: '\'' :: _ => singleRun ('\'' :: done) fuel (cursor.skip 2)
    | '\'' :: _ => some ⟨done, cursor, false⟩
    | char :: _ =>
      if isSeparator char then some ⟨done, cursor, false⟩
      else singleRun (char :: done) fuel (cursor.skip 1)
    | [] => some ⟨done, cursor, false⟩

/-- The character with the code that some hexadecimal digits give. -/
def hexChar? (digits : List Char) : Option Char := do
  let code ← Hex.ofDigits? digits
  if (0xD800 ≤ code ∧ code ≤ 0xDFFF) ∨ code > 0x10FFFF then none else some (Char.ofNat code)

/-- The character behind a backslash, as the character meant or the number of digits to read. -/
def escape? : Char → Option (Char ⊕ Nat)
  | '0' => some (.inl '\x00')
  | 'a' => some (.inl '\x07')
  | 'b' => some (.inl '\x08')
  | 't' | '\t' => some (.inl '\t')
  | 'n' => some (.inl '\n')
  | 'v' => some (.inl '\x0b')
  | 'f' => some (.inl '\x0c')
  | 'r' => some (.inl '\r')
  | 'e' => some (.inl '\x1b')
  | ' ' => some (.inl ' ')
  | '"' => some (.inl '"')
  | '/' => some (.inl '/')
  | '\\' => some (.inl '\\')
  | 'N' => some (.inl '\u0085')
  | '_' => some (.inl '\u00a0')
  | 'L' => some (.inl '\u2028')
  | 'P' => some (.inl '\u2029')
  | 'x' => some (.inr 2)
  | 'u' => some (.inr 4)
  | 'U' => some (.inr 8)
  | _ => none

def doubleRun (done : List Char) : Nat → Cursor → Option Run
  | 0, _ => none
  | fuel + 1, cursor =>
    match cursor.rest with
    | [] => some ⟨done, cursor, false⟩
    | '"' :: _ => some ⟨done, cursor, false⟩
    | '\\' :: short :: rest =>
      if isBreak short then some ⟨done, (cursor.skip 1).takeBreak.2, true⟩
      else
        match escape? short with
        | some (.inl char) => doubleRun (char :: done) fuel (cursor.skip 2)
        | some (.inr width) =>
          if (rest.take width).length < width then none
          else
            match hexChar? (rest.take width) with
            | some char => doubleRun (char :: done) fuel (cursor.skip (2 + width))
            | none => none
        | none => none
    | char :: _ =>
      if isSeparator char then some ⟨done, cursor, false⟩
      else doubleRun (char :: done) fuel (cursor.skip 1)

def quotedFrom (single : Bool) : Nat → List Char → Cursor → Option ScalarText
  | 0, _, _ => none
  | fuel + 1, done, cursor =>
    if cursor.atDocumentMark || cursor.atEnd then none
    else
      let size := cursor.left + 1
      match if single then singleRun done size cursor else doubleRun done size cursor with
      | none => none
      | some ⟨done, cursor, escapedBreak⟩ =>
        if cursor.startsWith (if single then '\'' else '"') then
          some ⟨done.reverse, false, cursor.skip 1⟩
        else
          let gap := if escapedBreak then Gap.escapedBreak else Gap.none
          match Gap.take 0 (cursor.left + 1) gap cursor with
          | none => none
          | some (gap, cursor) => quotedFrom single fuel (gap.folded.reverse ++ done) cursor

/-- A scalar in quotes, from behind the first of them. -/
def quoted (single : Bool) (cursor : Cursor) : Option ScalarText :=
  quotedFrom single (2 * cursor.left + 2) [] cursor

inductive Chomping where
  | strip
  | clip
  | keep
  deriving DecidableEq

def chomping? : List Char → Option Chomping
  | '+' :: _ => some .keep
  | '-' :: _ => some .strip
  | _ => none

def increment? : List Char → Option Nat
  | char :: _ => if char.isDigit then some (char.toNat - '0'.toNat) else none
  | [] => none

/-- Chomping and an explicit indentation, in either order. No indentation is zero. -/
def header (cursor : Cursor) : Option (Chomping × Option Nat × Cursor) :=
  let allowed (increment : Option Nat) (result : Chomping × Option Nat × Cursor) :=
    if increment = some 0 then none else some result
  match chomping? cursor.rest with
  | some chomping =>
    let cursor := cursor.skip 1
    match increment? cursor.rest with
    | some increment => allowed (some increment) (chomping, some increment, cursor.skip 1)
    | none => some (chomping, none, cursor)
  | none =>
    match increment? cursor.rest with
    | some increment =>
      let cursor := cursor.skip 1
      match chomping? cursor.rest with
      | some chomping => allowed (some increment) (chomping, some increment, cursor.skip 1)
      | none => allowed (some increment) (.clip, some increment, cursor)
    | none => some (.clip, none, cursor)

/-- Empty lines and the indentation of the next line that is not empty. An `indent` of zero is not
known yet, and `widest` is the deepest column seen. -/
def emptyLines (indent : Nat) : Nat → Nat → List Char → Cursor →
    Option (Nat × List Char × Cursor)
  | 0, _, _, _ => none
  | fuel + 1, widest, breaks, cursor =>
    let (blanks, _) := cursor.rest.span (· = ' ')
    let count := if indent = 0 then blanks.length else min blanks.length (indent - cursor.column)
    let cursor := cursor.skip count
    let widest := max widest cursor.column
    if (indent = 0 || cursor.column < indent) && cursor.startsWith '\t' then none
    else if cursor.atBreak then
      let (text, cursor) := cursor.takeBreak
      emptyLines indent fuel widest (breaks ++ text) cursor
    else some (widest, breaks, cursor)

/-- Lines at the indentation of the scalar. `ending` is the break before the current line, `empty`
the breaks of empty lines behind it, and `blank` says that the last line starts with a blank. -/
def blockLines (literal : Bool) (indent : Nat) :
    Nat → List Char → List Char → List Char → Bool → Cursor →
      Option (List Char × List Char × List Char × Cursor)
  | 0, _, _, _, _, _ => none
  | fuel + 1, done, ending, empty, blank, cursor =>
    if cursor.column = indent && !cursor.atEnd then
      let starts := cursor.atBlank
      let joint :=
        if !literal && ending = ['\n'] && !blank && !starts then
          (if empty.isEmpty then [' '] else []) ++ empty
        else ending ++ empty
      let (content, cursor) := cursor.restOfLine
      let (ending, cursor) := cursor.takeBreak
      match emptyLines indent (cursor.left + 1) 0 [] cursor with
      | none => none
      | some (_, empty, cursor) =>
        blockLines literal indent fuel (content.reverse ++ joint.reverse ++ done) ending empty starts
          cursor
    else some (done, ending, empty, cursor)

/-- A literal or folded scalar from behind its indicator. `parent` is the indentation of the
surrounding collection, `-1` outside of any. -/
def block (literal : Bool) (parent : Int) (cursor : Cursor) : Option ScalarText := do
  let (chomping, increment, cursor) ← header cursor
  let cursor ← cursor.finishLine?
  let given := increment.map fun count => if parent ≥ 0 then parent.toNat + count else count
  let (widest, empty, cursor) ←
    emptyLines (given.getD 0) (cursor.left + 1) 0 [] cursor
  let indent := given.getD (max (max widest (parent + 1).toNat) 1)
  let (done, ending, empty, cursor) ←
    blockLines literal indent (cursor.left + 1) [] [] empty false cursor
  let tail := match chomping with
    | .strip => []
    | .clip => ending
    | .keep => ending ++ empty
  return ⟨done.reverse ++ tail, true, cursor⟩

end ScalarText
end Yaml
end ApiDialect
