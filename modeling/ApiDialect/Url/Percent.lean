import ApiDialect.Text.Hex

/-!
Percent-encoding of characters by their UTF-8 bytes, and its reversal.
-/

namespace ApiDialect
namespace Percent

/-- Characters that are encoded wherever they stand: controls and everything beyond ASCII. -/
def isControl (char : Char) : Bool :=
  char.toNat < 0x20 || char.toNat ≥ 0x7F

/-- Characters that are encoded in a hierarchical path. -/
def inPath (char : Char) : Bool :=
  isControl char || " \"#<>?`\x7b\x7d".toList.contains char

private def encodeByte (byte : UInt8) : List Char :=
  '%' :: Hex.padded byte.toNat 2

def encodeChar (encoded : Char → Bool) (char : Char) : List Char :=
  if encoded char then (String.singleton char).toUTF8.toList.flatMap encodeByte else [char]

def encode (encoded : Char → Bool) (text : List Char) : List Char :=
  text.flatMap (encodeChar encoded)

/-- A percent sign without two hexadecimal digits stands for itself. -/
def decode : List Char → List UInt8
  | [] => []
  | '%' :: high :: low :: rest =>
    match Hex.ofDigits? [high, low] with
    | some code => code.toUInt8 :: decode rest
    | none => '%'.toNat.toUInt8 :: decode (high :: low :: rest)
  | char :: rest => (String.singleton char).toUTF8.toList ++ decode rest

end Percent
end ApiDialect
