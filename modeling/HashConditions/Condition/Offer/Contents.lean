import HashConditions.Condition.Contents
import HashConditions.Offered.Convert

/-!
# Fingerprint contents from offered values

Nothing is checked but that the parts have an encoding, in the order in which they are encoded.
-/

namespace HashConditions

namespace Contents

/-- Contents of a preimage condition. -/
def offerPreimage (bs : Offered) : Except Failure Bytes := do
  return preimage (← bs.toOctets)

/-- Contents of a prefix condition. -/
def offerPrefix (lead maxMessageLength sub : Offered) : Except Failure Bytes := do
  let lead ← lead.toOctets
  let limit ← Der.magnitude? (← maxMessageLength.toSigned .negativeInteger)
  return prefixed lead limit (← sub.toCondition)

/-- Contents of a threshold condition. -/
def offerThreshold (demanded subs : Offered) : Except Failure Bytes := do
  let subs ← (← subs.toItems).mapM Offered.toCondition
  return threshold (← Der.magnitude? (← demanded.toSigned .negativeInteger)) subs

/-- The octets of an offered modulus. -/
def offerModulus (n : Offered) : Except Failure Bytes := do
  modulus? (← n.toIndex)

/-- Contents of an RSA condition. -/
def offerRsa (n : Offered) : Except Failure Bytes := do
  rsa? (← n.toIndex)

/-- Contents of an Ed25519 condition. -/
def offerEd25519 (publicKey : Offered) : Except Failure Bytes := do
  return ed25519 (← publicKey.toOctets)

end Contents

namespace Bytes

/-- What stands for octets, in canonical order. -/
def offerSorted (items : Offered) : Except Failure (List Bytes) := do
  return sortCanonical (← (← items.toItems).mapM Offered.toOctets)

end Bytes

end HashConditions
