import HashConditions.Text.Hex
import HashConditions.Text.Utf8

/-!
# Percent encoding

An octet can be written as a percent sign and two hexadecimal digits. `encode` brings a component
of a URI into characters that may stand there: what is not such a character is written as its
UTF-8 octets. A percent sign is left alone if all percent signs of the component start an encoded
octet; otherwise none is taken to do so, and all are encoded themselves.

`decode` goes the other way, from a component in which plus signs stand for spaces.

A text holds Unicode characters and no lone surrogates, here as everywhere in the library, so each
of its characters has UTF-8 octets.
-/

namespace HashConditions

namespace Percent

/-- Letters, digits and the marks that never have a meaning of their own in a URI. -/
def isUnreserved (c : Char) : Bool :=
  c.isAlphanum || c == '-' || c == '.' || c == '_' || c == '~'

/-- The marks that separate parts within a component. -/
def isSubDelimiter (c : Char) : Bool :=
  "!$&'()*+,;=".toList.contains c

/-- The characters that `encode` leaves as they are, apart from the percent sign. -/
def isKept (c : Char) : Bool :=
  isUnreserved c || isSubDelimiter c || ":/?#[]@".toList.contains c

/-- Whether every percent sign starts an encoded octet. -/
def wellFormed : List Char → Bool
  | '%' :: high :: low :: rest =>
    Text.isHexDigit high && Text.isHexDigit low && wellFormed rest
  | c :: rest => c != '%' && wellFormed rest
  | [] => true

/-- The encoded form of an octet. -/
def encodeOctet (b : UInt8) : List Char :=
  '%' :: Text.hexPair b

/-- The encoded form of a character, percent signs being kept or not. -/
def encodeChar (keepPercent : Bool) (c : Char) : List Char :=
  if isKept c || (keepPercent && c == '%') then [c]
  else (String.utf8EncodeChar c).flatMap encodeOctet

/-- A component in characters that may stand in a URI. -/
def encode (text : List Char) : List Char :=
  text.flatMap (encodeChar (wellFormed text))

/-- The same component with capital digits in all encoded octets. -/
def capitalize : List Char → List Char
  | '%' :: high :: low :: rest => '%' :: high.toUpper :: low.toUpper :: capitalize rest
  | c :: rest => c :: capitalize rest
  | [] => []

/-- The octets of a component. A percent sign that starts no encoded octet stands for itself. -/
def octets : List Char → Bytes
  | '%' :: high :: low :: rest =>
    match Text.hexValue? high, Text.hexValue? low with
    | some h, some l => UInt8.ofNat (h * 16 + l) :: octets rest
    | _, _ => 0x25 :: octets (high :: low :: rest)
  | c :: rest => String.utf8EncodeChar c ++ octets rest
  | [] => []

/-- The text of a component in which plus signs stand for spaces. -/
def decode (text : List Char) : List Char :=
  Text.decodeUtf8 (octets (text.map fun c => if c = '+' then ' ' else c))

end Percent

end HashConditions
