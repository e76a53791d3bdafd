import HashConditions.Offered.Shown
import HashConditions.Text.Numeral

/-!
# Converting offered values

What stands for octets or for an integer without being one. A sequence of small integers stands
for the octets with these numbers, and a count for as many zero octets. A floating-point number
stands for the integer that is left when its fraction is dropped, and a numeral for the integer it
spells, in a text or in octets.
-/

namespace HashConditions

namespace Offered

/-- The items of a sequence. -/
def toItems (v : Offered) : Except Failure (List Offered) :=
  match v.items? with
  | some items => .ok items
  | none => .error (.unsuitable v.kind)

/-- The number of items of a sequence. -/
def toSize (v : Offered) : Except Failure Nat :=
  v.toItems.map List.length

/-- The condition that is offered. -/
def toCondition : Offered → Except Failure Condition
  | condition c => .ok c
  | v => .error (.unsuitable v.kind)

/-- The integer that a value passes for. -/
def toIndex (v : Offered) : Except Failure Int :=
  match v.index? with
  | some n => .ok n
  | none => .error (.unsuitable v.kind)

/-- The integer that a value passes for, where a negative one is about to be refused. Of a
floating-point number it is seen that it is negative before it is seen that it is no integer, so
it fails in the given way. -/
def toSigned (negative : Unrepresentable) (v : Offered) : Except Failure Int := do
  match v with
  | floating x => if x.isNegative then throw (.unrepresentable negative)
  | _ => pure ()
  v.toIndex

/-- The integer that is offered as a quantity, within its bounds. -/
def toQuantity (what : Quantity) : Offered → Except Invalid Nat
  | integer n => what.check n
  | _ => .error (.notInteger what)

/-! ### Octets -/

/-- The octet with the number that is offered. -/
def toOctet (v : Offered) : Except Failure UInt8 := do
  let n ← v.toIndex
  if 0 ≤ n ∧ n < 256 then return UInt8.ofNat n.toNat else throw (.unrepresentable .octet)

/-- As many zero octets as a count says. A count is a signed number of 64 bits. -/
def zeros (count : Int) : Except Unrepresentable Bytes :=
  if count.natAbs > maxQuantity ∧ count ≠ -0x8000000000000000 then .error .countRange
  else if count < 0 then .error .negativeCount
  else .ok (List.replicate count.toNat 0)

/-- The octets that a value stands for. -/
def toOctets (v : Offered) : Except Failure Bytes := do
  match v with
  | octets _ bs => return bs
  | truth _ | integer _ => zeros (← v.toIndex)
  | list _ | types _ => (← v.toItems).mapM toOctet
  | _ => throw (.unsuitable v.kind)

/-! ### Integers -/

/-- The integer that a numeral spells. What is no numeral is shown with at most 200 characters,
quotes included. -/
def ofNumeral (blank : Char → Bool) (characters : List Char) (shown : String) :
    Except Unrepresentable Int :=
  match Text.numeral? blank characters with
  | none => .error (.numeral (String.ofList (shown.toList.take 200)))
  | some (negative, digits) =>
    if digits.length > Text.maxDigits then .error (.digits digits.length)
    else
      let n : Int := Text.ofDecimal digits
      .ok (if negative then -n else n)

/-- The integer that a value stands for. -/
def toInteger (v : Offered) : Except Failure Int := do
  match v with
  | truth _ | integer _ => v.toIndex
  | floating (.infinite _) => throw (.unrepresentable .infiniteInteger)
  | floating .undefined => throw (.unrepresentable .undefinedInteger)
  | floating x => return x.truncate
  | text s => ofNumeral Text.isMargin (s.toList.map Text.plainDigit) (← v.quoted)
  | octets _ bs => ofNumeral Text.isAsciiBlank (Text.charsOfOctets bs) (bs.quoted .string)
  | _ => throw (.unsuitable v.kind)

end Offered

end HashConditions
