import HashConditions.Fulfillment.Decode
import HashConditions.Uri.Condition
import HashConditions.Verification.Provider

/-!
# Verification

A fulfillment satisfies a condition for a message if the condition it derives is the given one
and its own check passes:

* a preimage passes, since the equal fingerprints have shown it already;
* a signature passes if the provider accepts it;
* a prefix hands the message, with the prefix in front, to its subfulfillment;
* a threshold passes if all its subfulfillments do, which are asked in order until one fails.

A check that does not pass is the answer `false`. What does not belong together at all is a
failure: types that differ, and a message that is longer than a prefix allows.
-/

namespace HashConditions

namespace Verification

/-- Asks the provider about a signature, and notes a rejection. -/
def checkSignature (p : Provider) (type : ConditionType) (check : SignatureCheck) :
    Verification Bool := do
  let valid ← ask p check
  if !valid then note (.signatureRejected type)
  return valid

mutual

/-- The check of a fulfillment on a message. The condition it is to satisfy has been compared. -/
def check (p : Provider) : Fulfillment → Bytes → Verification Bool
  | .preimage .., _ => return true
  | .prefixed lead maxMessageLength sub _, message =>
    if maxMessageLength < message.length then
      throw (.invalid (.messageTooLong message.length maxMessageLength))
    else check p sub (lead ++ message)
  | .threshold _ subfulfillments _, message => checkAll p subfulfillments message
  | .rsa modulus exponent signature _, message =>
    checkSignature p .rsaSha256 (.rsa modulus exponent message signature)
  | .ed25519 publicKey signature _, message =>
    checkSignature p .ed25519Sha256 (.ed25519 publicKey message signature)

/-- The checks of several fulfillments on one message, up to the first that does not pass. -/
def checkAll (p : Provider) : List Fulfillment → Bytes → Verification Bool
  | [], _ => return true
  | f :: fs, message => do
    if ← check p f message then checkAll p fs message else return false

end

/-- Whether a fulfillment satisfies a condition for a message. -/
def verify (p : Provider) (f : Fulfillment) (c : Condition) (message : Bytes) :
    Verification Bool :=
  if c.type = f.type then
    if f.condition = c then check p f message
    else do
      note (.otherCondition f.type f.condition.cost c.cost)
      return false
  else throw (.mismatch (.types f.type c.type))

/-! ### Encoded operands -/

/-- A fulfillment, itself or in its encoding. -/
inductive PresentedFulfillment
  | value (f : Fulfillment)
  | encoded (bs : Bytes)

/-- A condition, itself, in its encoding or as a URI. -/
inductive PresentedCondition
  | value (c : Condition)
  | encoded (bs : Bytes)
  | uri (text : String)

/-- Reads a fulfillment, and notes what is wrong with it. -/
def decodeFulfillment (bs : Bytes) : Verification Fulfillment :=
  match Fulfillment.decode bs with
  | .ok f => return f
  | .error why => do
    note (.fulfillmentUnreadable why)
    throw (.malformed why)

/-- Reads a condition, and notes what is wrong with it. -/
def decodeCondition (bs : Bytes) : Verification Condition :=
  match Condition.decode bs with
  | .ok c => return c
  | .error why => do
    note (.conditionUnreadable why)
    throw (.malformed why)

/-- The fulfillment that is presented. -/
def PresentedFulfillment.get : PresentedFulfillment → Verification Fulfillment
  | value f => return f
  | encoded bs => decodeFulfillment bs

/-- The condition that is presented. -/
def PresentedCondition.get : PresentedCondition → Verification Condition
  | value c => return c
  | encoded bs => decodeCondition bs
  | uri text => ofExcept (Condition.ofUri text)

/-- Whether a presented fulfillment satisfies a presented condition for a message. -/
def validate (p : Provider) (f : PresentedFulfillment) (c : PresentedCondition)
    (message : Bytes) : Verification Bool := do
  let f ← f.get
  let c ← c.get
  verify p f c message

end Verification

end HashConditions
