import HashConditions.Condition.Basic
import HashConditions.Signature.Exponent

/-!
# Fulfillments

A fulfillment is what someone presents to satisfy a condition: a preimage, a signature with its
key, a prefix in front of another fulfillment, or enough fulfillments to reach a threshold
together with the conditions that are left open.

Every node carries the condition it fulfills. That condition is derived from the other fields by
the builders of `HashConditions.Fulfillment.Build` and never taken from outside;
`Fulfillment.Constructible` there is the predicate of the values that the builders make.
-/

namespace HashConditions

/-- What is presented to satisfy a condition. -/
inductive Fulfillment
  /-- Reveals the preimage of the fingerprint. -/
  | preimage (preimage : Bytes) (condition : Condition)
  /-- Puts a prefix in front of the message, which may not be longer than a limit, and hands the
  result to another fulfillment. -/
  | prefixed (lead : Bytes) (maxMessageLength : Nat) (sub : Fulfillment) (condition : Condition)
  /-- Fulfills all of its subfulfillments and leaves the subconditions open. Both lists are in
  the order of their encodings. -/
  | threshold (subconditions : List Condition) (subfulfillments : List Fulfillment)
      (condition : Condition)
  /-- Signs the message with an RSA key. -/
  | rsa (modulus : Nat) (exponent : PublicExponent) (signature : Bytes) (condition : Condition)
  /-- Signs the message with an Ed25519 key. -/
  | ed25519 (publicKey signature : Bytes) (condition : Condition)

namespace Fulfillment

/-- The type of a fulfillment. -/
def type : Fulfillment → ConditionType
  | preimage .. => .preimageSha256
  | prefixed .. => .prefixSha256
  | threshold .. => .thresholdSha256
  | rsa .. => .rsaSha256
  | ed25519 .. => .ed25519Sha256

/-- The condition that a fulfillment fulfills. -/
def condition : Fulfillment → Condition
  | preimage _ c => c
  | prefixed _ _ _ c => c
  | threshold _ _ c => c
  | rsa _ _ _ c => c
  | ed25519 _ _ c => c

mutual

/-- Whether two fulfillments have the same fields. The conditions they carry follow from those
and are not compared, and the public exponent has one value. -/
def same : Fulfillment → Fulfillment → Bool
  | preimage p _, preimage q _ => p == q
  | prefixed p m f _, prefixed q n g _ => p == q && m == n && same f g
  | threshold cs fs _, threshold ds gs _ => cs == ds && sameList fs gs
  | rsa m _ s _, rsa n _ t _ => m == n && s == t
  | ed25519 k s _, ed25519 l t _ => k == l && s == t
  | _, _ => false

/-- Whether two lists hold the same fulfillments. -/
def sameList : List Fulfillment → List Fulfillment → Bool
  | [], [] => true
  | f :: fs, g :: gs => same f g && sameList fs gs
  | _, _ => false

end

end Fulfillment

end HashConditions
