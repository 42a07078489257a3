import ApiDialect.Decimal.Notation
import ApiDialect.Text.Hex
import ApiDialect.Yaml.Character
import ApiDialect.Yaml.Scalar

/-!
YAML text in block style. A string is written plainly when it would be read back as the same
string, else in the first of literal, single-quoted and double-quoted style that can hold it.
-/

namespace ApiDialect
namespace Yaml

inductive Style where
  | plain
  | single
  | double
  | literal
  deriving DecidableEq

namespace Style

/-- A character that starts something other than text. -/
def opensToken (char : Char) : Bool :=
  "#,[]\x7b\x7d&*!|>'\"%@\x60".toList.contains char

def startsIndicator : List Char → Bool
  | [] => false
  | char :: rest =>
    opensToken char || ((char = '?' || char = ':' || char = '-') && separated rest)

/-- A colon before a separator or a number sign behind one. -/
def holdsIndicator (previous : Char) : List Char → Bool
  | [] => false
  | char :: rest =>
    (char = ':' && separated rest) || (char = '#' && isSeparator previous) ||
      holdsIndicator char rest

def indicates (text : List Char) : Bool :=
  "---".toList.isPrefixOf text || "...".toList.isPrefixOf text || startsIndicator text ||
    match text with
    | [] => false
    | char :: rest => holdsIndicator char rest

def isSpace (char : Char) : Bool :=
  char = ' '

def isSpaceOrBreak (char : Char) : Bool :=
  isSpace char || isBreak char

/-- A character of the first class directly before one of the second. -/
def adjacent (first second : Char → Bool) : List Char → Bool
  | char :: next :: rest => (first char && second next) || adjacent first second (next :: rest)
  | _ => false

def hasUnprintable (text : List Char) : Bool :=
  text.any fun char => !isPrintable char

def mayBePlain (text : List Char) : Bool :=
  !(text.any isBreak || text.head?.any isSpaceOrBreak || text.getLast?.any isSpaceOrBreak ||
    hasUnprintable text || indicates text)

def mayBeSingle (text : List Char) : Bool :=
  !(adjacent isBreak isSpace text || adjacent isSpace isBreak text || hasUnprintable text)

def mayBeLiteral (text : List Char) : Bool :=
  !(text.getLast?.any isSpace || adjacent isSpace isBreak text || hasUnprintable text)

/-- Digits behind a superfluous zero are text, but not every reader takes them for it. -/
def readsAsText (text : String) : Bool :=
  match Plain.ofText text with
  | .text => !Plain.isPadded text.toList
  | _ => false

def ofText (text : String) : Style :=
  let chars := text.toList
  if chars.contains '\n' then
    if mayBeLiteral chars then .literal else .double
  else if readsAsText text && mayBePlain chars then .plain
  else if mayBeSingle chars then .single
  else .double

end Style

def blanks (count : Nat) : List Char :=
  List.replicate count ' '

/-- Lines behind a break are indented; `fresh` says that a break has just been written. -/
def singleFrom (indent : Nat) (fresh : Bool) : List Char → List Char
  | [] => if fresh then blanks indent else []
  | char :: rest =>
    if isBreak char then char :: singleFrom indent true rest
    else if char = ' ' then ' ' :: singleFrom indent fresh rest
    else
      (if fresh then blanks indent else []) ++ (if char = '\'' then ['\'', '\''] else [char]) ++
        singleFrom indent false rest

/-- What stands behind the backslash. -/
def escape (char : Char) : List Char :=
  let code := char.toNat
  match code with
  | 0x00 => ['0']
  | 0x07 => ['a']
  | 0x08 => ['b']
  | 0x09 => ['t']
  | 0x0A => ['n']
  | 0x0B => ['v']
  | 0x0C => ['f']
  | 0x0D => ['r']
  | 0x1B => ['e']
  | 0x22 => ['"']
  | 0x5C => ['\\']
  | 0x85 => ['N']
  | 0xA0 => ['_']
  | 0x2028 => ['L']
  | 0x2029 => ['P']
  | _ =>
    if code ≤ 0xFF then 'x' :: Hex.padded code 2
    else if code ≤ 0xFFFF then 'u' :: Hex.padded code 4
    else 'U' :: Hex.padded code 8

def doubled (char : Char) : List Char :=
  if !isPrintable char || isBreak char || char = '"' || char = '\\' then '\\' :: escape char
  else [char]

/-- A digit for indentation when the text starts with blank space, and what to do with breaks at
its end: drop none, keep all, or by default keep one. -/
def hints (text : List Char) : List Char :=
  let indentation := if text.head?.any (fun char => char = ' ' || isBreak char) then ['2'] else []
  let ending := match text.reverse with
    | [] => ['-']
    | last :: [] => if isBreak last then ['+'] else ['-']
    | last :: previous :: _ =>
      if !isBreak last then ['-'] else if isBreak previous then ['+'] else []
  indentation ++ ending

def literalLines (indent : Nat) (fresh : Bool) : List Char → List Char
  | [] => []
  | char :: rest =>
    if isBreak char then char :: literalLines indent true rest
    else (if fresh then blanks indent else []) ++ char :: literalLines indent false rest

/-- The text of a string whose continuation lines have at least this indentation. -/
def string (indent : Nat) (text : String) : String :=
  match Style.ofText text with
  | .plain => text
  | .single => "'" ++ String.ofList (singleFrom indent false text.toList) ++ "'"
  | .double => "\"" ++ String.ofList (text.toList.flatMap doubled) ++ "\""
  | .literal =>
    "|" ++ String.ofList (hints text.toList) ++ "\n" ++
      String.ofList (literalLines indent true text.toList)

/-- Ends a line unless the text, a literal, has ended it already. -/
def line (text : String) : String :=
  if text.toList.getLast?.any isBreak then text else text ++ "\n"

/-- Values that are written without starting a new line. -/
def inline (indent : Nat) : Value → String
  | .null => "null"
  | .bool true => "true"
  | .bool false => "false"
  | .num number => Notation.yaml.write number
  | .str text => string indent text
  | .arr _ => "[]"
  | .obj _ => "\x7b\x7d"

/-- A key fits on one line with its value when it has no breaks and at most 128 bytes. -/
def isSimpleKey (name : String) : Bool :=
  !name.toList.any isBreak && name.utf8ByteSize ≤ 128

def spaces (count : Nat) : String :=
  String.ofList (blanks count)

mutual
/-- A value whose first line continues the current one at column `indent`. -/
def compact (indent : Nat) : Value → String
  | .arr (item :: rest) => "- " ++ compact (indent + 2) item ++ sequence indent rest
  | .obj ((name, value) :: rest) => member indent name value ++ mapping indent rest
  | value => line (inline indent value)
termination_by structural value => value

/-- The items of a sequence, each on lines of its own. -/
def sequence (indent : Nat) : List Value → String
  | [] => ""
  | item :: rest => spaces indent ++ "- " ++ compact (indent + 2) item ++ sequence indent rest
termination_by structural items => items

/-- Sequences under a simple key keep its indentation, mappings get two blanks more. -/
def member (indent : Nat) (name : String) : Value → String
  | .arr (item :: rest) =>
    if isSimpleKey name then
      string (indent + 2) name ++ ":\n" ++
        spaces indent ++ "- " ++ compact (indent + 2) item ++ sequence indent rest
    else
      "? " ++ line (string (indent + 2) name) ++ spaces indent ++ ": " ++
        "- " ++ compact (indent + 4) item ++ sequence (indent + 2) rest
  | .obj ((first, value) :: rest) =>
    if isSimpleKey name then
      string (indent + 2) name ++ ":\n" ++
        spaces (indent + 2) ++ member (indent + 2) first value ++ mapping (indent + 2) rest
    else
      "? " ++ line (string (indent + 2) name) ++ spaces indent ++ ": " ++
        member (indent + 2) first value ++ mapping (indent + 2) rest
  | value =>
    if isSimpleKey name then
      string (indent + 2) name ++ ": " ++ line (inline (indent + 2) value)
    else
      "? " ++ line (string (indent + 2) name) ++ spaces indent ++ ": " ++
        line (inline (indent + 2) value)
termination_by structural value => value

/-- The members of a mapping, each on lines of its own. -/
def mapping (indent : Nat) : List (String × Value) → String
  | [] => ""
  | (name, value) :: rest => spaces indent ++ member indent name value ++ mapping indent rest
termination_by structural members => members
end

/-- A scalar document is indented like the content of a collection. -/
def print : Value → String
  | .arr (item :: rest) => compact 0 (.arr (item :: rest))
  | .obj (pair :: rest) => compact 0 (.obj (pair :: rest))
  | value => line (inline 2 value)

end Yaml
end ApiDialect
