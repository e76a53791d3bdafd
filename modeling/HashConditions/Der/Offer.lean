import HashConditions.Der.Session
import HashConditions.Offered.Convert
import HashConditions.Offered.Labelled

/-!
# Encoding and reading offered values

Lengths, integers and tags from values that pass for integers, the integer that a sequence stands
for, and steps of a reading session whose tag may be of any kind. A tag is compared with the octet
at hand by value; if it differs, it has to be written into the message, for which not every kind of
value has a form.
-/

namespace HashConditions

namespace Der

/-- The octets of the length that is offered. -/
def offerLength (n : Offered) : Except Failure Bytes := do
  encodeLength? (← n.toSigned .negativeLength)

/-- The content octets of the integer that is offered. -/
def offerInteger (n : Offered) : Except Failure Bytes := do
  encodeInteger? (← n.toSigned .negativeInteger)

/-- The octets of an element with the tag and the content that are offered. The tag comes first. -/
def offerElement (tag content : Offered) : Except Failure Bytes := do
  let tag ← tag.toIndex
  match content with
  | .octets _ bs => encodeElement? tag bs
  | _ =>
    let _ ← encodeElement? tag []
    throw (.unsuitable content.kind)

/-- The bits of the number that is offered together with the given ones. -/
def offerBits (bits : Nat) (n : Offered) : Except Failure Int := do
  return withBits bits (← n.toIndex)

/-! ### Integers -/

/-- The integer that a list stands for. Its first items have to make a minimal integer before the
others are looked at; of an item out of range the low eight bits count there. -/
def ofItems (items : List Offered) : Except Failure (Except Malformed.Fault Nat) := do
  match items with
  | [] => return .error .emptyInteger
  | first :: rest =>
    let first ← first.toIndex
    if 128 ≤ first % 256 then return .error .negativeInteger
    if first = 0 then
      if let second :: _ := rest then
        if (← second.toIndex) % 256 < 128 then return .error .paddedInteger
    return .ok (Bytes.toNat (← (Offered.list items).toOctets))

/-- The integer that offered content stands for. -/
def integerOf (content : Offered) : Except Failure (Except Malformed.Fault Nat) := do
  if content.isBlank then return .error .emptyInteger
  match content with
  | .octets _ bs => return decodeInteger bs
  | .list items => ofItems items
  | _ => throw (.unsuitable content.kind)

/-- The integer that offered content stands for, as the part and at the position that the caller
says. -/
def offerContent (content field offset : Offered) : Except Failure (Except Labelled Nat) := do
  return (← integerOf content).mapError fun fault => { fault, field, offset }

/-! ### Sessions -/

/-- The tag that an element at the start of the region has to carry. If there is none, it does not
matter. -/
def Region.tagFor {ρ ε : Type} [Region ρ ε] (c : ρ) (tag : Offered) : Except Failure Int := do
  match first? c with
  | .ok (some found) =>
    if tag.whole? = some found.toNat then return found.toNat
    match tag with
    | .floating _ | .text _ => throw (.unrepresentable (.hexadecimal tag.kind))
    | _ => tag.toIndex
  | _ => return 0

/-- Whether the failures of an action name the part that the caller says. -/
def Action.isNamed : Action → Bool
  | .condition | .fulfillment => false
  | _ => true

/-- One step of a session with the tag that is offered. A tag that cannot be asked for leaves the
session as it is. -/
def Session.offer {ρ ε : Type} [Region ρ ε] (s : Session ρ) (number : Nat) (tag : Offered)
    (action : Int → Action) : Except Failure (Option (Except ε (Found ρ)) × Session ρ) := do
  match s[number]? with
  | none => return (none, s)
  | some c => return s.step number (action (← Region.tagFor c tag))

end Der

end HashConditions
