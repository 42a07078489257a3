import ApiDialect.Decimal.Notation
import ApiDialect.Text.Hex

/-!
JSON text. A document is laid out with two blanks of indentation; a message is one line.
-/

namespace ApiDialect
namespace Json

/-- Quotes, backslashes and control characters are escaped; every other character is itself. -/
def escape (char : Char) : List Char :=
  match char with
  | '"' => ['\\', '"']
  | '\\' => ['\\', '\\']
  | '\x08' => ['\\', 'b']
  | '\x0c' => ['\\', 'f']
  | '\n' => ['\\', 'n']
  | '\r' => ['\\', 'r']
  | '\t' => ['\\', 't']
  | _ =>
    if char < ' ' then
      ['\\', 'u', '0', '0', Hex.lower (char.toNat / 16), Hex.lower (char.toNat % 16)]
    else [char]

def quote (text : String) : String :=
  "\"" ++ String.ofList (text.toList.flatMap escape) ++ "\""

def newline (indent : Nat) : String :=
  "\n" ++ String.ofList (List.replicate indent ' ')

def scalar : Value → String
  | .null => "null"
  | .bool true => "true"
  | .bool false => "false"
  | .num number => Notation.json.write number
  | .str text => quote text
  | .arr _ => "[]"
  | .obj _ => "\x7b\x7d"

mutual
/-- The text of a value whose first line starts anywhere and whose other lines are indented. -/
def pretty (indent : Nat) : Value → String
  | .arr (item :: rest) =>
    "[" ++ newline (indent + 2) ++ pretty (indent + 2) item ++ prettyItems (indent + 2) rest ++
      newline indent ++ "]"
  | .obj ((name, value) :: rest) =>
    "\x7b" ++ newline (indent + 2) ++ quote name ++ ": " ++ pretty (indent + 2) value ++
      prettyMembers (indent + 2) rest ++ newline indent ++ "\x7d"
  | value => scalar value
termination_by structural value => value

def prettyItems (indent : Nat) : List Value → String
  | [] => ""
  | item :: rest => "," ++ newline indent ++ pretty indent item ++ prettyItems indent rest
termination_by structural items => items

def prettyMembers (indent : Nat) : List (String × Value) → String
  | [] => ""
  | (name, value) :: rest =>
    "," ++ newline indent ++ quote name ++ ": " ++ pretty indent value ++ prettyMembers indent rest
termination_by structural members => members
end

mutual
/-- The text of a value without blanks. -/
def compact : Value → String
  | .arr (item :: rest) => "[" ++ compact item ++ compactItems rest ++ "]"
  | .obj ((name, value) :: rest) =>
    "\x7b" ++ quote name ++ ":" ++ compact value ++ compactMembers rest ++ "\x7d"
  | value => scalar value
termination_by structural value => value

def compactItems : List Value → String
  | [] => ""
  | item :: rest => "," ++ compact item ++ compactItems rest
termination_by structural items => items

def compactMembers : List (String × Value) → String
  | [] => ""
  | (name, value) :: rest => "," ++ quote name ++ ":" ++ compact value ++ compactMembers rest
termination_by structural members => members
end

end Json
end ApiDialect
