import HashConditions.Condition.Basic
import HashConditions.Der.Choice
import HashConditions.Der.Cursor
import HashConditions.TypeSet.Binary

/-!
# Conditions as octets

    [type] { [0] fingerprint, [1] cost, [2] subtypes }

The subtypes are there for compound types only. Reading accepts what writing produces and
nothing else: each part is in its only form, in its place, and nothing follows it.
-/

namespace HashConditions

open Der Region

namespace Condition

/-- The last part of the encoding: the subtypes, if there are any. -/
def encodeSubtypes : Option TypeSet → Bytes
  | none => []
  | some subtypes => encodeElement (primitiveTag 2) subtypes.encode

/-- The canonical encoding of a condition. -/
def encode (c : Condition) : Bytes :=
  encodeElement (constructedTag c.type.code)
    (encodeElement (primitiveTag 0) c.fingerprint ++
      (encodeElement (primitiveTag 1) (encodeInteger c.cost) ++ encodeSubtypes c.subtypes))

variable {ρ ε : Type} [Region ρ ε]

/-- Reads the subtypes, which only a compound type has. -/
def readSubtypes (type : ConditionType) (c : ρ) : Except ε (Option TypeSet × ρ) :=
  if type.isCompound then
    match element c (primitiveTag 2) "subtypes" with
    | .error e => .error e
    | .ok e =>
      match TypeSet.decode e.content with
      | .error fault => .error (fail c fault "subtypes")
      | .ok subtypes => .ok (some subtypes, e.after)
  else .ok (none, c)

/-- The condition whose parts the content of an element holds. -/
def ofChoice (found : Choice ρ) : Except ε Condition := do
  let (fingerprint, c) ← (readOctets found.inside (primitiveTag 0) "fingerprint").value
  if fingerprint.length = fingerprintLength then
    let (cost, c) ← (readInteger c (primitiveTag 1) "cost").value
    let (subtypes, c) ← readSubtypes found.type c
    finish c "condition"
    match make found.type fingerprint cost subtypes with
    | .ok condition => .ok condition
    | .error why => .error (fail found.start (.invalid why) "condition")
  else .error (fail found.inside (.fingerprintLength fingerprint.length) "fingerprint")

/-- Reads one condition. -/
def read (c : ρ) : Der.Reading ρ ε Condition :=
  reading c (choice c .condition) Choice.after ofChoice

/-- The condition that an octet string is the encoding of. -/
def decode (bs : Bytes) : Except Malformed Condition := do
  let (condition, c) ← (read (Cursor.ofBytes bs)).value
  finish c "condition"
  return condition

end Condition

end HashConditions
