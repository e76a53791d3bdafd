import HashConditions.Condition.Offer
import HashConditions.Verification.Basic

/-!
# Verification of offered values

The kind of the condition is looked at first, then its type, then the kind of the message. Only
after that does it matter that the fulfillment is one; before, a condition in its place passes,
since it has a type as well. An operand that has to be decoded is decoded before all that, the
fulfillment first.
-/

namespace HashConditions

namespace Verification

/-- The type of an offered fulfillment, or of a condition in its place. -/
def offeredType : Offered → Except Failure ConditionType
  | .fulfillment f => .ok f.type
  | .condition c => .ok c.type
  | v => .error (.unsuitable v.kind)

/-- Whether the offered fulfillment satisfies the offered condition for the offered message. -/
def verifyOffered (p : Provider) (f c message : Offered) : Verification Bool := do
  match c with
  | .condition c =>
    let type ← ofExcept (offeredType f)
    if c.type ≠ type then throw (.mismatch (.types type c.type))
    match message, f with
    | .octets _ bs, .fulfillment f => verify p f c bs
    | .octets _ _, _ => throw (.unsuitable f.kind)
    | _, _ => throw (.mismatch (.messageKind message.kind))
  | _ => throw (.mismatch (.notCondition c.kind))

/-- Reads the condition in the octets that are offered. -/
def decodeOfferedCondition (data : Offered) : Verification Condition := do
  decodeCondition (← ofExcept data.toOctets)

/-- Reads the fulfillment in the octets that are offered. -/
def decodeOfferedFulfillment (data : Offered) : Verification Fulfillment := do
  decodeFulfillment (← ofExcept data.toOctets)

/-- The fulfillment that an octet string or a buffer encodes, and anything else as it is. -/
def readFulfillment : Offered → Verification Offered
  | .octets .string bs | .octets .buffer bs => return .fulfillment (← decodeFulfillment bs)
  | f => return f

/-- The condition that an octet string or a buffer encodes, or that a text is the URI of, and
anything else as it is. -/
def readCondition : Offered → Verification Offered
  | .octets .string bs | .octets .buffer bs => return .condition (← decodeCondition bs)
  | .text s => return .condition (← ofExcept (Condition.ofUri s))
  | c => return c

/-- Whether the offered fulfillment satisfies the offered condition for the offered message, in
whatever form the two are offered. -/
def validateOffered (p : Provider) (f c message : Offered) : Verification Bool := do
  let f ← readFulfillment f
  let c ← readCondition c
  verifyOffered p f c message

/-- Operands of their proper kinds are verified as such. -/
theorem verifyOffered_proper (p : Provider) (f : Fulfillment) (c : Condition) (holder : Holder)
    (message : Bytes) :
    verifyOffered p (.fulfillment f) (.condition c) (.octets holder message) =
      verify p f c message := by
  by_cases h : c.type = f.type
  · simp [verifyOffered, offeredType, ofExcept, h]
  · simp [verifyOffered, offeredType, ofExcept, h, verify]
    rfl

end Verification

end HashConditions
