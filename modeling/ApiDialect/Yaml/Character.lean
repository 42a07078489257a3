/-!
The classes of characters that YAML tells apart.
-/

namespace ApiDialect
namespace Yaml

/-- Line feed, carriage return, next line, line separator and paragraph separator. -/
def isBreak (char : Char) : Bool :=
  char = '\n' || char = '\r' || char = '\u0085' || char = '\u2028' || char = '\u2029'

def isBlank (char : Char) : Bool :=
  char = ' ' || char = '\t'

def isNul (char : Char) : Bool :=
  char.toNat = 0

def isBreakOrNul (char : Char) : Bool :=
  isBreak char || isNul char

/-- A character that separates tokens; the end of the text does so as well. -/
def isSeparator (char : Char) : Bool :=
  isBlank char || isBreakOrNul char

/-- Whether a text starts with a separator or ends here. -/
def separated : List Char → Bool
  | [] => true
  | char :: _ => isSeparator char

/-- Characters that may stand in a text without an escape; a tab is not one of them. -/
def isPrintable (char : Char) : Bool :=
  let code := char.toNat
  code = 0x0A || (0x20 ≤ code && code ≤ 0x7E) ||
    (0xA0 ≤ code && code ≠ 0xFEFF && code ≠ 0xFFFE && code ≠ 0xFFFF)

end Yaml
end ApiDialect
