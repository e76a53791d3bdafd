import HashConditions.Condition.Derive
import HashConditions.Fulfillment.Encode

/-!
# Building fulfillments

One builder per type. A builder checks the fields, sorts the children of a threshold, and
derives the condition; it fails where the fields break a rule or the condition does not exist.
`Fulfillment.Constructible` is closed under the builders and nothing else: a fulfillment is
constructible if a builder makes it from constructible parts.
-/

namespace HashConditions

namespace Fulfillment

/-- Reveals a preimage. -/
def ofPreimage (bs : Bytes) : Except Invalid Fulfillment :=
  (Condition.ofPreimage bs).map fun c => preimage bs c

/-- Puts a prefix in front of the message of another fulfillment. -/
def ofPrefix (lead : Bytes) (maxMessageLength : Int) (sub : Fulfillment) :
    Except Invalid Fulfillment :=
  (Condition.ofPrefix lead maxMessageLength sub.condition).map fun c =>
    prefixed lead maxMessageLength.toNat sub c

/-- The children of a threshold: the conditions left open, then those of the children fulfilled. -/
def allSubconditions (subconditions : List Condition) (subfulfillments : List Fulfillment) :
    List Condition :=
  subconditions ++ subfulfillments.map condition

/-- Fulfills some children of a threshold and leaves others open. -/
def ofThreshold (subconditions : List Condition) (subfulfillments : List Fulfillment) :
    Except Invalid Fulfillment :=
  if subfulfillments.isEmpty then .error .noSubfulfillments
  else
    let left := Bytes.sortBy Condition.encode subconditions
    let fulfilled := Bytes.sortBy encode subfulfillments
    (Condition.ofThreshold fulfilled.length (allSubconditions left fulfilled)).map fun c =>
      threshold left fulfilled c

/-- Presents a signature under an RSA key. -/
def ofModulus (modulus : Nat) (signature : Bytes) : Except Invalid Fulfillment :=
  match checkModulus modulus with
  | .error why => .error why
  | .ok () =>
    if signature.length = octetLength modulus then
      (Condition.ofModulus modulus).map fun c => rsa modulus .integer signature c
    else .error (.signatureModulusLength (octetLength modulus) signature.length)

/-- Presents a signature under an RSA key, for any integers as modulus and exponent. Another
exponent than the fixed one is part of the message, so one that cannot be written fails for that
reason. -/
def ofModulus? (modulus : Int) (signature : Bytes) (exponent : Int) :
    Except Failure Fulfillment :=
  if exponent = PublicExponent.value then
    match checkModulus modulus with
    | .error why => .error (.invalid why)
    | .ok () =>
      match modulus with
      | .ofNat n => (ofModulus n signature).mapError .invalid
      | .negSucc _ => .error (.unrepresentable .negativeMagnitude)
  else
    match decimalText exponent with
    | .ok shown => .error (.invalid (.exponent shown))
    | .error why => .error (.unrepresentable why)

/-- Presents a signature under an Ed25519 key. -/
def ofPublicKey (publicKey signature : Bytes) : Except Invalid Fulfillment :=
  if publicKey.length = 32 then
    if signature.length = 64 then
      (Condition.ofPublicKey publicKey).map fun c => ed25519 publicKey signature c
    else .error (.signatureLength signature.length)
  else .error (.fulfillmentKeyLength publicKey.length)

/-- The fulfillments that the builders make. -/
inductive Constructible : Fulfillment → Prop
  | preimage {bs : Bytes} {f : Fulfillment} : ofPreimage bs = .ok f → Constructible f
  | prefixed {lead : Bytes} {maxMessageLength : Int} {sub f : Fulfillment} :
      Constructible sub → ofPrefix lead maxMessageLength sub = .ok f → Constructible f
  | threshold {subconditions : List Condition} {subfulfillments : List Fulfillment}
      {f : Fulfillment} : (∀ g ∈ subfulfillments, Constructible g) →
      ofThreshold subconditions subfulfillments = .ok f → Constructible f
  | rsa {modulus : Nat} {signature : Bytes} {f : Fulfillment} :
      ofModulus modulus signature = .ok f → Constructible f
  | ed25519 {publicKey signature : Bytes} {f : Fulfillment} :
      ofPublicKey publicKey signature = .ok f → Constructible f

/-- What the fingerprint of the condition of a fulfillment is the digest of. -/
def contents : Fulfillment → Bytes
  | preimage bs _ => Contents.preimage bs
  | prefixed lead maxMessageLength sub _ => Contents.prefixed lead maxMessageLength sub.condition
  | threshold subconditions subfulfillments _ =>
    Contents.threshold subfulfillments.length (allSubconditions subconditions subfulfillments)
  | rsa modulus _ _ _ => Contents.rsa modulus
  | ed25519 publicKey _ _ => Contents.ed25519 publicKey

end Fulfillment

end HashConditions
