import HashConditions.Offered.Convert
import HashConditions.Offered.Labelled
import HashConditions.TypeSet.Binary

/-!
# Types and sets of types from offered values

A value that equals the code of a type stands for that type, so a truth value or a floating-point
number may do. A name is a text in whatever case; octets have no name among them, and are shown as
the name that they are not.

The bits of a set may be offered as any sequence of values that stand for integers. The content
octets of a bit string may be offered as any sequence too: its length is looked at first, then the
count of unused bits, and of the bits themselves the low eight.
-/

namespace HashConditions

namespace ConditionType

/-- The type whose code a value is equal to. -/
def offered? (code : Offered) : Option ConditionType :=
  code.whole?.bind ofCode?

/-- The type whose code a value is equal to, or the failure that there is none. -/
def offer (code : Offered) : Except Failure ConditionType := do
  match offered? code with
  | some type => return type
  | none => throw (.unrepresentable (.unknownTypeCode (← code.quoted)))

/-- The type with the name that is offered. -/
def offerName (name : Offered) : Except Failure ConditionType := do
  match name with
  | .text s =>
    match ofName? s with
    | some type => return type
    | none => throw (.unrepresentable (.unknownTypeName s))
  | .octets .string _ | .octets .buffer _ =>
    throw (.unrepresentable (.unknownTypeName (← name.shown)))
  | _ => throw (.unsuitable name.kind)

/-- The code of a type, offered as an integer, stands for that type. -/
@[simp] theorem offered?_code (t : ConditionType) : offered? (.integer t.code) = some t := by
  simp [offered?, Offered.whole?, Offered.amount?, Amount.whole?]

end ConditionType

namespace TypeSet

/-- The content octets of the bit string whose ones stand at the positions that are offered. -/
def offerBits (positions : Offered) : Except Failure Bytes := do
  let positions ← (← positions.toItems).mapM Offered.toInteger
  encodeBits? positions

/-- The set that a count of unused bits and an octet of bits stand for. -/
def ofPair (unused bits : Offered) : Except Failure (Except Malformed.Fault TypeSet) := do
  match unused.amount? with
  | none => throw (.unsuitable unused.kind)
  | some count =>
    if count.below (.whole 3) || (Amount.whole 7).below count then
      return .error (.unusedBits (← unused.shown))
    let unused ← unused.toIndex
    let bits ← bits.toIndex
    return decode [UInt8.ofNat unused.toNat, UInt8.ofNat (bits % 256).toNat]

/-- The set that items stand for, of which there is at least one. -/
def ofItems : List Offered → Except Failure (Except Malformed.Fault TypeSet)
  | [unused] => return if unused.same (.integer 0) then .ok empty else .error .unusedWithoutBits
  | [unused, bits] => ofPair unused bits
  | _ => return .error .longBits

/-- The set that offered content stands for. The items of a set have no places, so a set of one or
two is unsuitable. -/
def ofContent (content : Offered) : Except Failure (Except Malformed.Fault TypeSet) := do
  if content.isBlank then return .error .emptyBits
  match content with
  | .octets _ bs => return decode bs
  | .types s =>
    if 2 < s.toList.length then return .error .longBits
    throw (.unsuitable content.kind)
  | _ => ofItems (← content.toItems)

/-- The set that offered content stands for, at the position that the caller says. -/
def offerContent (content offset : Offered) : Except Failure (Except Labelled TypeSet) := do
  return (← ofContent content).mapError fun fault =>
    { fault, field := .text "subtypes", offset }

end TypeSet

end HashConditions
