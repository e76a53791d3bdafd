import HashConditions.Bytes.Basic
import HashConditions.Failure.Basic

/-!
# Elements

An element is a tag octet, the length of its content and the content. Everything the format
writes is an element or a concatenation of elements.

The tags are those of a plain sequence, and numbered tags of the context class, which are primitive
for octets and constructed for nested elements. The number takes the low bits, so a tag is the
bitwise or of its class and its number.

A length below 128 is one octet. A longer one is written in base 256 with as few digits as
possible, behind an octet that counts them and has its top bit set.

The content of an integer that is not negative is written in base 256 as well, as short as possible,
but with the top bit clear, since a set top bit would make the integer negative. So there is a
leading zero octet exactly when the next octet has its top bit set, and the integer zero is one
octet.
-/

namespace HashConditions

namespace Der

/-! ### Tags -/

/-- The class bits of a numbered primitive tag. -/
def primitiveClass : Nat :=
  0x80

/-- The class bits of a numbered constructed tag. -/
def constructedClass : Nat :=
  0xA0

/-- The tag of a sequence. -/
def sequenceTag : UInt8 :=
  0x30

/-- The numbered tag of an element that holds octets. -/
def primitiveTag (number : Nat) : UInt8 :=
  UInt8.ofNat (primitiveClass ||| number)

/-- The numbered tag of an element that holds elements. -/
def constructedTag (number : Nat) : UInt8 :=
  UInt8.ofNat (constructedClass ||| number)

/-- The bits of a number together with the given ones. A negative number is read in two's
complement. -/
def withBits (bits : Nat) : Int → Int
  | .ofNat n => Int.ofNat (bits ||| n)
  | .negSucc n => Int.negSucc (n - (n &&& bits))

/-! ### Lengths -/

/-- The octets of a length. -/
def encodeLength (n : Nat) : Bytes :=
  if n < 128 then [UInt8.ofNat n]
  else UInt8.ofNat (128 ||| octetLength n) :: Bytes.ofNat (octetLength n) n

/-- The octets of a length, for any integer: one below zero has none, and neither has one whose
digits a single octet cannot count. -/
def encodeLength? (n : Int) : Except Unrepresentable Bytes :=
  if n < 0 then .error .negativeLength
  else if octetLength n.toNat < 256 then .ok (encodeLength n.toNat)
  else .error .octet

/-! ### Elements -/

/-- The octets of an element. -/
def encodeElement (tag : UInt8) (content : Bytes) : Bytes :=
  tag :: (encodeLength content.length ++ content)

/-- The octets of an element, unless its tag is no octet. -/
def encodeElement? (tag : Int) (content : Bytes) : Except Unrepresentable Bytes :=
  if 0 ≤ tag ∧ tag < 256 then .ok (encodeElement (UInt8.ofNat tag.toNat) content)
  else .error .octet

/-! ### Integers -/

/-- The content octets of an integer. -/
def encodeInteger (n : Nat) : Bytes :=
  Bytes.ofNat (bitLength n / 8 + 1) n

/-- An integer that is not negative. -/
def magnitude? (n : Int) : Except Unrepresentable Nat :=
  if n < 0 then .error .negativeInteger else .ok n.toNat

/-- The content octets of an integer, unless it is negative. -/
def encodeInteger? (n : Int) : Except Unrepresentable Bytes :=
  (magnitude? n).map encodeInteger

/-- The integer that content octets stand for. -/
def decodeInteger (content : Bytes) : Except Malformed.Fault Nat :=
  match content with
  | [] => .error .emptyInteger
  | first :: rest =>
    if 128 ≤ first then .error .negativeInteger
    else if first = 0 ∧ rest.head?.any (· < 128) then .error .paddedInteger
    else .ok (Bytes.toNat content)

end Der

end HashConditions
