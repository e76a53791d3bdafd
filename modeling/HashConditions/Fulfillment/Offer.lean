import HashConditions.Condition.Offer
import HashConditions.Fulfillment.Build

/-!
# Fulfillments from offered values

The kinds of octet strings and children are looked at before any value is, with two exceptions:
the limit of a prefix comes last, and of an RSA key exponent and modulus come before the kind of
the signature. A floating-point number that is equal to the fixed public exponent is accepted, and
kept.
-/

namespace HashConditions

namespace Fulfillment

/-- The octets that are offered as a part of a fulfillment. -/
def offeredOctets (field : String) : Offered → Except Invalid Bytes
  | .octets _ bs => .ok bs
  | v => .error (.notBytes field v.kind)

/-- The fulfillment that is offered, or the given failure. -/
def offered (why : Invalid) : Offered → Except Invalid Fulfillment
  | .fulfillment f => .ok f
  | _ => .error why

/-- The condition that is offered, or the given failure. -/
def offeredCondition (why : Invalid) : Offered → Except Invalid Condition
  | .condition c => .ok c
  | _ => .error why

/-- Reveals the preimage that is offered. -/
def offerPreimage (bs : Offered) : Except Failure Fulfillment := do
  ofPreimage (← offeredOctets "preimage" bs)

/-- Puts the prefix that is offered in front of the message of another fulfillment. -/
def offerPrefix (lead maxMessageLength sub : Offered) : Except Failure Fulfillment := do
  let lead ← offeredOctets "prefix" lead
  let sub ← offered .subfulfillmentKind sub
  let limit ← maxMessageLength.toQuantity .maxMessageLength
  ofPrefix lead limit sub

/-- Fulfills the children that are offered, and leaves the conditions that are offered open. -/
def offerThreshold (subconditions subfulfillments : Offered) : Except Failure Fulfillment := do
  let subconditions ← subconditions.toItems
  let subfulfillments ← subfulfillments.toItems
  let left ← subconditions.mapM fun c => offeredCondition .subconditionsKind c
  let fulfilled ← subfulfillments.mapM fun f => offered .subfulfillmentsKind f
  ofThreshold left fulfilled

/-- The form of the public exponent that is offered, which has to equal the fixed one. -/
def offeredExponent (exponent : Offered) : Except Failure PublicExponent := do
  if exponent.whole? = some (PublicExponent.value : Int) then
    match exponent with
    | .floating _ => return .floating
    | _ => return .integer
  throw (.invalid (.exponent (← exponent.shown)))

/-- The same fulfillment with the public exponent in the given form. -/
def withExponent (exponent : PublicExponent) : Fulfillment → Fulfillment
  | rsa modulus _ signature c => rsa modulus exponent signature c
  | f => f

/-- Presents the signature and the RSA key that are offered. -/
def offerModulus (modulus signature exponent : Offered) : Except Failure Fulfillment := do
  let exponent ← offeredExponent exponent
  let modulus ← Condition.offeredModulus modulus
  let signature ← offeredOctets "signature" signature
  return (← ofModulus? modulus signature PublicExponent.value).withExponent exponent

/-- Presents the signature and the Ed25519 key that are offered. -/
def offerPublicKey (publicKey signature : Offered) : Except Failure Fulfillment := do
  let publicKey ← offeredOctets "public_key" publicKey
  let signature ← offeredOctets "signature" signature
  ofPublicKey publicKey signature

end Fulfillment

end HashConditions
