import HashConditions.Text.Hex
import HashConditions.Text.Printable

/-!
# Quoted text

How a message shows a text: between single quotes, or between double quotes if the text holds a
single quote and no double quote. A backslash, the quote in use and the characters that are not
printable are written with a backslash; every other character stands for itself. Octets are shown
as the text of their ASCII characters, behind the letter b.
-/

namespace HashConditions

namespace Text

/-- The quote that surrounds a text. -/
def quoteFor (text : List Char) : Char :=
  if text.contains '\'' && !text.contains '"' then '"' else '\''

/-- The number of a character, in as few digits of three fixed widths as hold it. -/
def escapeNumber (n : Nat) : List Char :=
  if n < 0x100 then '\\' :: 'x' :: lowerDigits 2 n
  else if n < 0x10000 then '\\' :: 'u' :: lowerDigits 4 n
  else '\\' :: 'U' :: lowerDigits 8 n

/-- A character as it is written between the given quotes. -/
def escape (printable : Char → Bool) (quote c : Char) : List Char :=
  if c = quote ∨ c = '\\' then ['\\', c]
  else if c = '\n' then ['\\', 'n']
  else if c = '\r' then ['\\', 'r']
  else if c = '\t' then ['\\', 't']
  else if printable c then [c]
  else escapeNumber c.toNat

/-- What is written for a text, between the given quotes. -/
def enclose (quote : Char) (written : List Char) : List Char :=
  quote :: (written ++ [quote])

/-- A text with its quotes. -/
def quoted (text : List Char) : List Char :=
  let quote := quoteFor text
  enclose quote (text.flatMap (escape isPrintable quote))

/-- The characters with the numbers of octets. -/
def charsOfOctets (bs : List UInt8) : List Char :=
  bs.map fun b => Char.ofNat b.toNat

/-- Whether a character that stands for an octet is shown as it is. -/
def isPrintableOctet (c : Char) : Bool :=
  isPrintable c && c.toNat < 128

/-- Octets with their mark and quotes. -/
def quotedOctets (bs : List UInt8) : List Char :=
  let text := charsOfOctets bs
  let quote := quoteFor text
  'b' :: enclose quote (text.flatMap (escape isPrintableOctet quote))

/-- The octets of a buffer with their mark and quotes. A single quote among them has a backslash
whatever the quotes are. -/
def quotedBuffer (bs : List UInt8) : List Char :=
  let text := charsOfOctets bs
  'b' :: enclose (quoteFor text) (text.flatMap (escape isPrintableOctet '\''))

end Text

end HashConditions
