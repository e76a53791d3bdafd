import HashConditions.ConditionType

/-!
# Values out of contract

Why a condition or a fulfillment cannot be built from the values offered, and why a message
cannot be checked against a fulfillment. The causes are the constructors; `Invalid.message`
words them.
-/

namespace HashConditions

/-- The largest cost, threshold and message length, `2 ^ 63 - 1`: they are signed numbers of 64
bits. -/
def maxQuantity : Nat :=
  0x7FFFFFFFFFFFFFFF

/-- The integers that callers supply. -/
inductive Quantity
  | cost
  | maxMessageLength
  | threshold
  | modulus
deriving DecidableEq

/-- The name of a quantity in a message. -/
def Quantity.name : Quantity → String
  | cost => "cost"
  | maxMessageLength => "max_message_length"
  | threshold => "threshold"
  | modulus => "modulus"

/-- What is wrong with a value that was offered. -/
inductive Invalid
  /-- No type has the code. -/
  | unknownTypeCode (shown : String)
  /-- A fingerprint that is no octet string. -/
  | fingerprintKind
  /-- A fingerprint of another length than that of a digest. -/
  | fingerprintLength (found : Nat)
  /-- A quantity that is no integer. -/
  | notInteger (what : Quantity)
  /-- A quantity below zero. -/
  | negative (what : Quantity)
  /-- A quantity above `maxQuantity`. -/
  | tooLarge (what : Quantity)
  /-- A compound condition without a set of subtypes. -/
  | subtypesMissing (type : ConditionType)
  /-- A subtype that no type has as its code. -/
  | unknownSubtype
  /-- A compound condition that lists its own type as a subtype. -/
  | ownSubtype (type : ConditionType)
  /-- A simple condition with a set of subtypes. -/
  | subtypesForbidden (type : ConditionType)
  /-- More subconditions demanded than there are. -/
  | thresholdExceeds (shown : String) (available : Nat)
  /-- No subcondition demanded. -/
  | thresholdZero
  /-- A modulus that is too short or too long. -/
  | modulusLength (bits : Nat)
  /-- Another public exponent than the fixed one. -/
  | exponent (shown : String)
  /-- A public key, offered for a condition, of the wrong length. -/
  | conditionKeyLength (found : Nat)
  /-- A public key, offered for a fulfillment, of the wrong length. -/
  | fulfillmentKeyLength (found : Nat)
  /-- An Ed25519 signature of the wrong length. -/
  | signatureLength (found : Nat)
  /-- An RSA signature of another length than the modulus. -/
  | signatureModulusLength (expected found : Nat)
  /-- A part of a fulfillment that is no octet string. -/
  | notBytes (field kind : String)
  /-- The subfulfillment of a prefix fulfillment is none. -/
  | subfulfillmentKind
  /-- A subcondition of a threshold fulfillment is none. -/
  | subconditionsKind
  /-- A subfulfillment of a threshold fulfillment is none. -/
  | subfulfillmentsKind
  /-- A threshold fulfillment that fulfills nothing. -/
  | noSubfulfillments
  /-- A message that is longer than a prefix fulfillment allows. -/
  | messageTooLong (length limit : Nat)
deriving DecidableEq

namespace Invalid

/-- The wording of a cause. -/
def message : Invalid → String
  | unknownTypeCode shown => s!"Unknown condition type code: {shown}"
  | fingerprintKind => "fingerprint must be bytes"
  | fingerprintLength found => s!"fingerprint must be 32 bytes, got {found}"
  | notInteger what => s!"{what.name} must be an int"
  | negative what => s!"{what.name} must be non-negative"
  | tooLarge what => s!"{what.name} exceeds maximum of {maxQuantity}"
  | subtypesMissing type => s!"{type.name} condition requires subtypes"
  | unknownSubtype => "subtypes contains an unknown type code"
  | ownSubtype type => s!"{type.name} condition cannot list its own type as a subtype"
  | subtypesForbidden type => s!"{type.name} condition cannot carry subtypes"
  | thresholdExceeds shown available =>
    s!"threshold {shown} exceeds the {available} available subconditions"
  | thresholdZero => "threshold must be at least 1"
  | modulusLength bits => s!"modulus bit length {bits} outside (1017, 4096]"
  | exponent shown => s!"public exponent must be 65537, got {shown}"
  | conditionKeyLength found => s!"Ed25519 public key must be 32 bytes, got {found}"
  | fulfillmentKeyLength found => s!"public key must be 32 bytes, got {found}"
  | signatureLength found => s!"signature must be 64 bytes, got {found}"
  | signatureModulusLength expected found =>
    s!"signature must be {expected} bytes to match the modulus, got {found}"
  | notBytes field kind => s!"{field} must be bytes, got {kind}"
  | subfulfillmentKind => "subfulfillment must be a fulfillment"
  | subconditionsKind => "subconditions must be conditions"
  | subfulfillmentsKind => "subfulfillments must be fulfillments"
  | noSubfulfillments => "threshold fulfillment requires at least one subfulfillment"
  | messageTooLong length limit =>
    s!"message length {length} exceeds maximum message length {limit}"

end Invalid

/-- A quantity that has to lie between zero and `maxQuantity`. -/
def Quantity.check (what : Quantity) (n : Int) : Except Invalid Nat :=
  if n < 0 then .error (.negative what)
  else if n.toNat > maxQuantity then .error (.tooLarge what)
  else .ok n.toNat

end HashConditions
