import HashConditions.Bytes.Basic
import HashConditions.Failure.Basic

/-!
# Costs

The cost of a condition bounds the work of verifying a fulfillment of it: the size of a
preimage, a fixed amount for an Ed25519 signature, and for an RSA signature an amount that grows
with the square of the length of the modulus. A prefix adds its own length, the length of the
longest message and an overhead. A threshold counts the most expensive subconditions, as many as
it demands, and an overhead for every subcondition.
-/

namespace HashConditions

namespace Cost

/-- The overhead of a prefix, and of each subcondition of a threshold. -/
def overhead : Nat :=
  1024

/-- The cost of a preimage. -/
def preimage (preimage : Bytes) : Nat :=
  preimage.length

/-- The cost of a prefix over a subcondition. -/
def prefixed (lead : Bytes) (maxMessageLength sub : Int) : Int :=
  lead.length + maxMessageLength + sub + overhead

/-- The first `count` members of a list; a negative count drops that many from its end. -/
def takeSigned {α : Type} (count : Int) (items : List α) : List α :=
  items.take (if count < 0 then items.length + count else count).toNat

/-- Costs from the largest down. -/
def descending (costs : List Int) : List Int :=
  costs.mergeSort fun a b => b ≤ a

/-- The sum of costs. -/
def total (costs : List Int) : Int :=
  costs.foldr (· + ·) 0

/-- The cost of a threshold over subconditions with the given costs, unless it demands more of
them than there are. -/
def threshold? (demanded : Int) (costs : List Int) : Option Int :=
  if costs.length < demanded then none
  else some (total (takeSigned demanded (descending costs)) + overhead * costs.length)

/-- The cost of a threshold over subconditions with the given costs. A threshold that is too large
is part of the message, so one that cannot be written fails for that reason. -/
def threshold (demanded : Int) (costs : List Int) : Except Failure Int := do
  match threshold? demanded costs with
  | some cost => return cost
  | none => throw (.invalid (.thresholdExceeds (← decimalText demanded) costs.length))

/-- The cost of an RSA signature: the square of the bit length of the modulus over 64. -/
def rsa (modulus : Int) : Nat :=
  bitLength modulus.natAbs * bitLength modulus.natAbs / 64

/-- The cost of an Ed25519 signature. -/
def ed25519 : Nat :=
  131072

end Cost

end HashConditions
