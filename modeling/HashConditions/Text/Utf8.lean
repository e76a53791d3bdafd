import HashConditions.Bytes.Basic

/-!
# UTF-8, with replacement

Every octet string is read as text. Where it is not well-formed UTF-8, each longest run of
octets that could have been continued to a character, and each octet that starts none, becomes
one replacement character U+FFFD.

The table of well-formed sequences restricts the second octet after some first octets, so that
no character has an overlong form, lies among the surrogates or lies above U+10FFFF.
-/

namespace HashConditions

namespace Text

/-- The character that stands for octets that make none. -/
def replacement : Char :=
  '\uFFFD'

/-- A character whose first octets have been read: the range of the next octet, the number of
octets to come and the bits so far. -/
structure Pending where
  low : UInt8
  high : UInt8
  left : Nat
  bits : Nat

/-- What an octet begins: a character of its own, a sequence of several octets, or nothing. -/
def startOctet (b : UInt8) : List Char × Option Pending :=
  if b < 0x80 then ([Char.ofNat b.toNat], none)
  else if b < 0xC2 then ([replacement], none)
  else if b < 0xE0 then ([], some ⟨0x80, 0xBF, 1, b.toNat - 0xC0⟩)
  else if b < 0xF0 then
    let low := if b = 0xE0 then 0xA0 else 0x80
    let high := if b = 0xED then 0x9F else 0xBF
    ([], some ⟨low, high, 2, b.toNat - 0xE0⟩)
  else if b < 0xF5 then
    let low := if b = 0xF0 then 0x90 else 0x80
    let high := if b = 0xF4 then 0x8F else 0xBF
    ([], some ⟨low, high, 3, b.toNat - 0xF0⟩)
  else ([replacement], none)

/-- Reads octets as text, after the first octets of a character or between characters. -/
def decodeUtf8From : Option Pending → Bytes → List Char
  | none, [] => []
  | some _, [] => [replacement]
  | none, b :: bs =>
    let (text, pending) := startOctet b
    text ++ decodeUtf8From pending bs
  | some p, b :: bs =>
    if p.low ≤ b ∧ b ≤ p.high then
      let bits := p.bits * 64 + b.toNat % 64
      if p.left = 1 then Char.ofNat bits :: decodeUtf8From none bs
      else decodeUtf8From (some ⟨0x80, 0xBF, p.left - 1, bits⟩) bs
    else
      let (text, pending) := startOctet b
      replacement :: (text ++ decodeUtf8From pending bs)

/-- Reads octets as text. -/
def decodeUtf8 (bs : Bytes) : List Char :=
  decodeUtf8From none bs

/-- The octets of a text. -/
def encodeUtf8 (text : List Char) : Bytes :=
  text.flatMap String.utf8EncodeChar

end Text

end HashConditions
