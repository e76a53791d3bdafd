import HashConditions.Failure.Malformed
import HashConditions.Failure.UriFault
import HashConditions.Text.Numeral

/-!
# Failures

All the ways in which an operation of the library can fail, by kind. A verification that comes
out negative is no failure: it is the answer `false`.
-/

namespace HashConditions

/-- Numbers and names that have no representation. -/
inductive Unrepresentable
  /-- A length below zero. -/
  | negativeLength
  /-- An integer below zero. -/
  | negativeInteger
  /-- An octet outside the range of octets. -/
  | octet
  /-- A bit position below zero. -/
  | negativeShift
  /-- A number below zero where only a magnitude can be written. -/
  | negativeMagnitude
  /-- A value that is the code of no type. -/
  | unknownTypeCode (shown : String)
  /-- A name that no type has. -/
  | unknownTypeName (name : String)
  /-- A decimal number with more digits than are read. -/
  | digits (count : Nat)
  /-- An integer with more decimal digits than are written. -/
  | manyDigits
  /-- A text that is no integer. -/
  | numeral (shown : String)
  /-- An infinite number where an integer is wanted. -/
  | infiniteInteger
  /-- An undefined number where an integer is wanted. -/
  | undefinedInteger
  /-- An integer out of the range of floating-point numbers. -/
  | floatingRange
  /-- A number of octets below zero. -/
  | negativeCount
  /-- A number of octets that cannot be counted. -/
  | countRange
  /-- A value of a kind that is not written in base 16. -/
  | hexadecimal (kind : String)
deriving DecidableEq

/-- The wording of a cause. -/
def Unrepresentable.message : Unrepresentable → String
  | negativeLength => "length must be non-negative"
  | negativeInteger => "integer must be non-negative"
  | octet => "bytes must be in range(0, 256)"
  | negativeShift => "negative shift count"
  | negativeMagnitude => "can't convert negative int to unsigned"
  | unknownTypeCode shown => s!"{shown} is not a valid ConditionType"
  | unknownTypeName name => s!"Unknown condition type name: {name}"
  | digits count =>
    s!"Exceeds the limit (4300 digits) for integer string conversion: value has {count} digits; " ++
      "use sys.set_int_max_str_digits() to increase the limit"
  | manyDigits =>
    "Exceeds the limit (4300 digits) for integer string conversion; " ++
      "use sys.set_int_max_str_digits() to increase the limit"
  | numeral shown => s!"invalid literal for int() with base 10: {shown}"
  | infiniteInteger => "cannot convert float infinity to integer"
  | undefinedInteger => "cannot convert float NaN to integer"
  | floatingRange => "int too large to convert to float"
  | negativeCount => "negative count"
  | countRange => "cannot fit 'int' into an index-sized integer"
  | hexadecimal kind => s!"Unknown format code 'X' for object of type '{kind}'"

/-- The decimal text of an integer, if it is not too long. -/
def decimalText (n : Int) : Except Unrepresentable String :=
  if Text.isLong n.natAbs then .error .manyDigits else .ok (toString n)

/-- A fulfillment, a condition and a message that cannot be put to verification together. -/
inductive Mismatch
  /-- Something else than a condition. -/
  | notCondition (kind : String)
  /-- A fulfillment of one type and a condition of another. -/
  | types (fulfillment condition : ConditionType)
  /-- A message that is no octet string. -/
  | messageKind (kind : String)
deriving DecidableEq

/-- The wording of a cause. -/
def Mismatch.message : Mismatch → String
  | notCondition kind => s!"expected a Condition, got {kind}"
  | types fulfillment condition =>
    s!"cannot verify a {fulfillment.name} fulfillment against a {condition.name} condition"
  | messageKind kind => s!"message must be bytes, got {kind}"

/-- A failure of any kind. -/
inductive Failure
  /-- A value out of contract. -/
  | invalid (why : Invalid)
  /-- An octet string that is no canonical encoding. -/
  | malformed (why : Malformed)
  /-- A text that is no condition URI. -/
  | uri (why : UriFault)
  /-- Operands that do not belong together. -/
  | mismatch (why : Mismatch)
  /-- A number or name that has no representation. -/
  | unrepresentable (why : Unrepresentable)
  /-- An octet at a position that an octet string does not have. -/
  | outside (position : Int)
  /-- A value of a kind for which there is no rule. -/
  | unsuitable (kind : String)
  /-- A failure of the provider of signature checks, in its own words. -/
  | provider (text : String)
deriving DecidableEq

/-- The wording for a position that an octet string does not have, or that none could have. -/
def outsideSentence (position : Int) : String :=
  if -0x8000000000000000 ≤ position ∧ position ≤ 0x7FFFFFFFFFFFFFFF then "index out of range"
  else "cannot fit 'int' into an index-sized integer"

/-- The wording of a failure. -/
def Failure.message : Failure → String
  | invalid why => why.message
  | malformed why => why.message
  | uri why => why.message
  | mismatch why => why.message
  | unrepresentable why => why.message
  | outside position => outsideSentence position
  | unsuitable kind => s!"unsuitable value of kind {kind}"
  | provider text => text

/-! ### Steps that fail in one way within computations that fail in many -/

instance : MonadLift (Except Invalid) (Except Failure) :=
  ⟨Except.mapError .invalid⟩

instance : MonadLift (Except Unrepresentable) (Except Failure) :=
  ⟨Except.mapError .unrepresentable⟩

instance : MonadLift (Except Malformed) (Except Failure) :=
  ⟨Except.mapError .malformed⟩

end HashConditions
