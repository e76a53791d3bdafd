import HashConditions.Failure.Invalid
import HashConditions.Text.Hex

/-!
# Malformed encodings

Why an octet string is no canonical encoding. A failure has a cause, the name of the part that
was being read, and the absolute position of the octet that the cause is about. A cause that is
itself a failure to build a value (`Fault.invalid`) keeps that failure.

Positions are integers because a caller may number the octets of a part from any start.
-/

namespace HashConditions

namespace Malformed

/-- What is wrong with an encoding. -/
inductive Fault
  /-- The region ends where an element should start. -/
  | unexpectedEnd
  /-- A tag that continues in further octets. -/
  | longTag
  /-- The region ends after the tag. -/
  | missingLength
  /-- A length that is given by an end marker. -/
  | indefiniteLength
  /-- A length of more than four octets. -/
  | longLength
  /-- The region ends inside the length. -/
  | truncatedLength
  /-- A length that fits fewer octets. -/
  | paddedLength
  /-- A content that reaches beyond the region. -/
  | overrun (declared available : Nat)
  /-- Another element than the expected one. -/
  | unexpectedTag (expected : Int) (found : UInt8)
  /-- Octets that are left over at the end of a region. -/
  | trailing (count : Nat)
  /-- An integer without octets. -/
  | emptyInteger
  /-- An integer below zero. -/
  | negativeInteger
  /-- An integer that fits fewer octets. -/
  | paddedInteger
  /-- A bit string without octets. -/
  | emptyBits
  /-- Unused bits in a bit string that has no bits. -/
  | unusedWithoutBits
  /-- A bit string of more than eight bits. -/
  | longBits
  /-- A count of unused bits that no set of types needs. -/
  | unusedBits (shown : String)
  /-- An unused bit that is one. -/
  | paddingBits
  /-- A last bit that is zero, and so could be dropped. -/
  | trailingZeroBits
  /-- A tag that stands for no type of condition. -/
  | unknownCondition (tag : UInt8)
  /-- A tag that stands for no type of fulfillment. -/
  | unknownFulfillment (tag : UInt8)
  /-- A fingerprint of another length than that of a digest. -/
  | fingerprintLength (found : Nat)
  /-- An element of a set that sorts before its predecessor. -/
  | unsortedSet
  /-- A modulus without octets or with a leading zero octet. -/
  | paddedModulus
  /-- Parts that are well written and yet make no value. -/
  | invalid (why : Invalid)
deriving DecidableEq

/-- A tag as messages show it, also one that is no octet. -/
def showTag (tag : Int) : String :=
  "0x" ++ String.ofList (Text.hexInteger tag)

/-- The wording for a content of the declared length where less is left. -/
def overrunSentence (declared : Nat) (left : String) : String :=
  s!"declared length {declared} exceeds available {left} bytes"

/-- The wording for what is left over. -/
def trailingSentence (left : String) : String :=
  s!"{left} trailing bytes"

/-- The wording of a cause. -/
def Fault.sentence : Fault → String
  | unexpectedEnd => "unexpected end of data"
  | longTag => "multi-byte tags are not supported"
  | missingLength => "missing length"
  | indefiniteLength => "indefinite length is not allowed"
  | longLength => "length prefix too long"
  | truncatedLength => "truncated length"
  | paddedLength => "length is not minimally encoded"
  | overrun declared available => overrunSentence declared (toString available)
  | unexpectedTag expected found => s!"expected tag {showTag expected}, found {showTag found.toNat}"
  | trailing count => trailingSentence (toString count)
  | emptyInteger => "empty integer"
  | negativeInteger => "negative integer"
  | paddedInteger => "integer is not minimally encoded"
  | emptyBits => "empty bit string"
  | unusedWithoutBits => "bit string without payload declares unused bits"
  | longBits => "bit string has more than one payload byte"
  | unusedBits shown => s!"implausible unused bit count {shown}"
  | paddingBits => "bit string padding is not zero"
  | trailingZeroBits => "bit string has trailing zero bits"
  | unknownCondition tag => s!"unknown condition tag {showTag tag.toNat}"
  | unknownFulfillment tag => s!"unknown fulfillment tag {showTag tag.toNat}"
  | fingerprintLength found => s!"fingerprint must be 32 bytes, got {found}"
  | unsortedSet => "SET OF elements are not in canonical order"
  | paddedModulus => "modulus is not minimally encoded"
  | invalid why => why.message

end Malformed

/-- A cause, the part it was found in and the position it was found at. -/
structure Malformed where
  fault : Malformed.Fault
  field : String
  offset : Int
deriving DecidableEq

namespace Malformed

/-- The wording of a failure, with part and position. -/
def message (e : Malformed) : String :=
  s!"{e.fault.sentence} (field={e.field}, offset={e.offset})"

/-- The failure to build a value that a failure passes on. -/
def cause? (e : Malformed) : Option Invalid :=
  match e.fault with
  | .invalid why => some why
  | _ => none

/-- The same failure, of a region that starts `n` octets later. -/
def shift (n : Int) (e : Malformed) : Malformed :=
  { e with offset := e.offset + n }

end Malformed

end HashConditions
