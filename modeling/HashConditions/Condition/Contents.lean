import HashConditions.Bytes.Order
import HashConditions.Condition.Binary

/-!
# Fingerprint contents

What the fingerprint of a condition is the digest of, by type:

    preimage    preimage
    prefix      SEQUENCE { [0] prefix, [1] maxMessageLength, [2] { subcondition } }
    threshold   SEQUENCE { [0] threshold, [1] { subconditions } }
    rsa         SEQUENCE { [0] modulus }
    ed25519     SEQUENCE { [0] publicKey }

The subconditions of a threshold are sorted by their encodings, so the contents do not depend on
the order they are given in.

The functions whose names end in a question mark take any integer as modulus, and fail for a
negative one, which has no octets.
-/

namespace HashConditions

open Der

namespace Contents

/-- Contents of a preimage condition. -/
def preimage (preimage : Bytes) : Bytes :=
  preimage

/-- Contents of a prefix condition. -/
def prefixed (lead : Bytes) (maxMessageLength : Nat) (sub : Condition) : Bytes :=
  encodeElement sequenceTag
    (encodeElement (primitiveTag 0) lead ++
      (encodeElement (primitiveTag 1) (encodeInteger maxMessageLength) ++
        encodeElement (constructedTag 2) sub.encode))

/-- Contents of a threshold condition. -/
def threshold (threshold : Nat) (subs : List Condition) : Bytes :=
  encodeElement sequenceTag
    (encodeElement (primitiveTag 0) (encodeInteger threshold) ++
      encodeElement (constructedTag 1) (Bytes.sortCanonical (subs.map Condition.encode)).flatten)

/-- The octets of a modulus, as few as possible. -/
def modulus (modulus : Nat) : Bytes :=
  Bytes.ofNat (octetLength modulus) modulus

/-- The octets of a modulus, which a negative number does not have. -/
def modulus? : Int → Except Unrepresentable Bytes
  | .ofNat n => .ok (modulus n)
  | .negSucc _ => .error .negativeMagnitude

/-- Contents of an RSA condition. -/
def rsa (n : Nat) : Bytes :=
  encodeElement sequenceTag (encodeElement (primitiveTag 0) (modulus n))

/-- Contents of an RSA condition, for any modulus. -/
def rsa? (n : Int) : Except Unrepresentable Bytes :=
  match n with
  | .ofNat n => .ok (rsa n)
  | .negSucc _ => .error .negativeMagnitude

/-- Contents of an Ed25519 condition. -/
def ed25519 (publicKey : Bytes) : Bytes :=
  encodeElement sequenceTag (encodeElement (primitiveTag 0) publicKey)

end Contents

end HashConditions
