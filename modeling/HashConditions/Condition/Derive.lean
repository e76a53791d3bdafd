import HashConditions.Condition.Contents
import HashConditions.Condition.Cost
import HashConditions.Digest.Sha2

/-!
# Deriving conditions

The condition of each type from what it commits to. The fingerprint is the digest of the
contents, the cost follows from the parts, and the subtypes of a compound condition are the types
found beneath it. The result goes through the checks of `Condition.make` like any other
condition; what can fail there is the bound on the cost.
-/

namespace HashConditions

/-- Whether a type occurs in a condition: as its own type or among its subtypes. -/
def Condition.mentions (c : Condition) (t : ConditionType) : Bool :=
  c.type = t || c.subtypes.any (·.contains t)

/-- The types beneath a compound condition of the given type, which is not among them. -/
def compoundSubtypes (own : ConditionType) (subs : List Condition) : TypeSet :=
  TypeSet.filter fun t => t ≠ own && subs.any (·.mentions t)

/-- The modulus of an RSA key: its bit length lies above 1017 and is at most 4096. Of a negative
number it is the length of the magnitude that counts. -/
def checkModulus (modulus : Int) : Except Invalid Unit :=
  let bits := bitLength modulus.natAbs
  if 1017 < bits ∧ bits ≤ 4096 then .ok () else .error (.modulusLength bits)

namespace Condition

/-- The condition that a preimage fulfills. -/
def ofPreimage (preimage : Bytes) : Except Invalid Condition :=
  make .preimageSha256 (Digest.sha256 (Contents.preimage preimage)) (Cost.preimage preimage) none

/-- The condition of a prefix over a subcondition. -/
def ofPrefix (lead : Bytes) (maxMessageLength : Int) (sub : Condition) :
    Except Invalid Condition :=
  match Quantity.maxMessageLength.check maxMessageLength with
  | .error why => .error why
  | .ok limit =>
    make .prefixSha256 (Digest.sha256 (Contents.prefixed lead limit sub))
      (Cost.prefixed lead limit sub.cost) (some (compoundSubtypes .prefixSha256 [sub]))

/-- The condition of a threshold over subconditions. -/
def ofThreshold (threshold : Int) (subs : List Condition) : Except Invalid Condition :=
  match Quantity.threshold.check threshold with
  | .error why => .error why
  | .ok demanded =>
    if demanded = 0 then .error .thresholdZero
    else
      match Cost.threshold? demanded (subs.map fun c => c.cost) with
      | none => .error (.thresholdExceeds (toString demanded) subs.length)
      | some cost =>
        make .thresholdSha256 (Digest.sha256 (Contents.threshold demanded subs)) cost
          (some (compoundSubtypes .thresholdSha256 subs))

/-- The condition of an RSA key. -/
def ofModulus (modulus : Nat) : Except Invalid Condition :=
  match checkModulus modulus with
  | .error why => .error why
  | .ok () => make .rsaSha256 (Digest.sha256 (Contents.rsa modulus)) (Cost.rsa modulus) none

/-- The condition of an RSA key, for any integer. The length of a negative modulus is checked
before its sign is noticed. -/
def ofModulus? (modulus : Int) : Except Failure Condition :=
  match checkModulus modulus with
  | .error why => .error (.invalid why)
  | .ok () =>
    match modulus with
    | .ofNat n => (ofModulus n).mapError .invalid
    | .negSucc _ => .error (.unrepresentable .negativeMagnitude)

/-- The condition of an Ed25519 key. -/
def ofPublicKey (publicKey : Bytes) : Except Invalid Condition :=
  if publicKey.length = 32 then
    make .ed25519Sha256 (Digest.sha256 (Contents.ed25519 publicKey)) Cost.ed25519 none
  else .error (.conditionKeyLength publicKey.length)

end Condition

end HashConditions
