import HashConditions.Bytes.Basic
import HashConditions.Failure.Basic
import HashConditions.TypeSet

/-!
# Sets of types as bit strings

The set of types beneath a compound condition is written as a bit string: bit `n`, counted from
the most significant bit of the one octet of bits, is the type with code `n`. An octet in front
says how many of the last bits are unused, and the bits end with the last one that is set. The
empty set is that octet alone, and it is zero.
-/

namespace HashConditions

/-- The content octets of a bit string with ones at the given positions, all below eight. -/
def encodeBits (positions : List Nat) : Bytes :=
  match positions.max? with
  | none => [0]
  | some last =>
    [UInt8.ofNat (7 - last),
      UInt8.ofNat (positions.foldl (fun bits position => bits ||| (128 >>> position)) 0)]

/-- The content octets of a bit string with ones at the given positions, unless one is not a
position in an octet. -/
def encodeBits? (positions : List Int) : Except Unrepresentable Bytes :=
  if positions.any (· < 0) then .error .negativeShift
  else if positions.any (7 < ·) then .error .octet
  else .ok (encodeBits (positions.map Int.toNat))

namespace TypeSet

/-- The content octets of a set of types. -/
def encode (s : TypeSet) : Bytes :=
  encodeBits (s.toList.map ConditionType.code)

/-- The types whose bits are set. -/
def ofBits (bits : UInt8) : TypeSet :=
  filter fun t => bits.toNat &&& (128 >>> t.code) ≠ 0

/-- The set of types that content octets stand for. There are five types, so at least three bits
are unused. -/
def decode (content : Bytes) : Except Malformed.Fault TypeSet :=
  match content with
  | [] => .error .emptyBits
  | [unused] => if unused = 0 then .ok empty else .error .unusedWithoutBits
  | [unused, bits] =>
    if unused < 3 ∨ 7 < unused then .error (.unusedBits (toString unused.toNat))
    else if bits.toNat &&& (1 <<< unused.toNat - 1) ≠ 0 then .error .paddingBits
    else if bits.toNat &&& 1 <<< unused.toNat = 0 then .error .trailingZeroBits
    else .ok (ofBits bits)
  | _ => .error .longBits

end TypeSet

end HashConditions
