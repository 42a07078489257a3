import ApiDialect.Text.Unprintable

/-!
Text quoted for a message: what a reader could not see or would take for the end of the quote is
escaped.
-/

namespace ApiDialect
namespace Quoted

private def lowerHex (code : Nat) : List Char :=
  Nat.toDigits 16 code

def escape (char : Char) : List Char :=
  match char with
  | '\x00' => ['\\', '0']
  | '\t' => ['\\', 't']
  | '\n' => ['\\', 'n']
  | '\r' => ['\\', 'r']
  | '"' => ['\\', '"']
  | '\\' => ['\\', '\\']
  | _ =>
    if isUnprintable char then ['\\', 'u', '\x7b'] ++ lowerHex char.toNat ++ ['\x7d'] else [char]

def quote (text : String) : String :=
  "\"" ++ String.ofList (text.toList.flatMap escape) ++ "\""

end Quoted
end ApiDialect
