import HashConditions.Bytes.Basic
import HashConditions.Failure.Basic
import HashConditions.Signature.Ed25519
import HashConditions.Signature.Exponent
import HashConditions.Signature.RsaPss

/-!
# Asking a provider

Verification does not check signatures itself but asks a provider. What a provider answers may
depend on the checks that were asked before, and it may fail in words of its own, so the laws of
verification hold for providers of every kind. The standard provider does the mathematics and
depends on nothing but the check.

Besides its answer, a verification leaves a trace: the checks it asked of the provider, in order,
and notes on why something was refused. A trace only grows, and it is kept when a verification
fails.
-/

namespace HashConditions

/-! ### Providers -/

/-- A question to a provider: whether a signature of a message is valid under a key. -/
inductive SignatureCheck
  | rsa (modulus : Nat) (exponent : PublicExponent) (message signature : Bytes)
  | ed25519 (publicKey message signature : Bytes)
deriving DecidableEq

/-- An answer to every check, given the checks made before it in their order. -/
structure Provider where
  answer : List SignatureCheck → SignatureCheck → Except String Bool

/-- Whether the signature of a check is valid. -/
def SignatureCheck.isValid : SignatureCheck → Bool
  | rsa modulus _ message signature =>
    Signature.RsaPss.verify modulus PublicExponent.value message signature
  | ed25519 publicKey message signature => Signature.Ed25519.verify publicKey message signature

namespace Provider

/-- The provider that checks signatures. -/
def standard : Provider where
  answer _ check := .ok check.isValid

/-- The provider that gives prepared answers one by one, and says yes when they are used up. -/
def scripted (answers : List (Except String Bool)) : Provider where
  answer earlier _ := answers.getD earlier.length (.ok true)

end Provider

/-! ### Traces -/

/-- A remark on something that was refused. -/
inductive Note
  /-- Octets that are no condition. -/
  | conditionUnreadable (why : Malformed)
  /-- Octets that are no fulfillment. -/
  | fulfillmentUnreadable (why : Malformed)
  /-- A fulfillment of another condition of the same type; the costs are its own and the given
  one's. -/
  | otherCondition (type : ConditionType) (own given : Nat)
  /-- A signature of a fulfillment of the given type that the provider rejects. -/
  | signatureRejected (type : ConditionType)
deriving DecidableEq

/-- The wording of a note. -/
def Note.message : Note → String
  | conditionUnreadable why => s!"condition decoding failed: {why.message}"
  | fulfillmentUnreadable why => s!"fulfillment decoding failed: {why.message}"
  | otherCondition type own given =>
    s!"{type.name} fulfillment does not match condition (cost {own} vs {given})"
  | signatureRejected type => s!"{type.name} signature rejected by provider"

/-- The checks asked so far and the notes taken so far. -/
structure Trace where
  checks : List SignatureCheck
  notes : List Note

/-- Nothing asked and nothing noted. -/
def Trace.empty : Trace :=
  ⟨[], []⟩

/-- A computation that may fail and that adds to a trace. -/
abbrev Verification := EStateM Failure Trace

namespace Verification

/-- Takes a note. -/
def note (n : Note) : Verification Unit :=
  modify fun t => { t with notes := t.notes ++ [n] }

/-- Asks the provider. -/
def ask (p : Provider) (check : SignatureCheck) : Verification Bool := do
  let earlier := (← get).checks
  modify fun t => { t with checks := t.checks ++ [check] }
  match p.answer earlier check with
  | .ok valid => return valid
  | .error text => throw (.provider text)

/-- A result that leaves nothing in the trace. -/
def ofExcept {α : Type} : Except Failure α → Verification α
  | .ok a => pure a
  | .error why => throw why

/-- What a computation returns or fails with, and the trace afterwards. -/
def runFrom {α : Type} (t : Trace) (v : Verification α) : Except Failure α × Trace :=
  match v t with
  | .ok a t => (.ok a, t)
  | .error why t => (.error why, t)

end Verification

end HashConditions
