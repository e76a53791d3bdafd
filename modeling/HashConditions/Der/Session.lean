import HashConditions.Fulfillment.Decode

/-!
# Reading sessions

A session reads an octet string step by step, in as many regions as it likes: reading a nested
element opens the region of its content. Steps name the region they are for. A step that fails does
not end the session.

Each step changes at most the region it is for, and adds at most one region.
-/

namespace HashConditions

namespace Der

/-- What to do with a region. A tag that is asked for may be any integer. -/
inductive Action
  | octets (tag : Int) (field : String)
  | any (field : String)
  | integer (tag : Int) (field : String)
  | nested (tag : Int) (field : String)
  | peek (field : String)
  | atEnd
  | finish (field : String)
  | condition
  | fulfillment

/-- What a step found. -/
inductive Found (ρ : Type)
  | octets (bs : Bytes)
  | element (tag : UInt8) (bs : Bytes)
  | integer (n : Nat)
  | nested (c : ρ)
  | tag (tag : UInt8)
  | flag (b : Bool)
  | nothing
  | condition (c : Condition)
  | fulfillment (f : Fulfillment)

namespace Region

variable {ρ ε : Type} [Region ρ ε]

/-- What is read under a tag that is asked for. An integer that is no octet is the tag of no
element. -/
def under {α : Type} (c : ρ) (tag : Int) (field : String)
    (read : UInt8 → Reading ρ ε α) : Reading ρ ε α :=
  if 0 ≤ tag ∧ tag < 256 then read (UInt8.ofNat tag.toNat)
  else ⟨(peek c field).bind fun found => .error (fail c (.unexpectedTag tag found) field), c⟩

/-- What an action finds in a region, and where it leaves the region. -/
def perform (c : ρ) : Action → Reading ρ ε (Found ρ)
  | .octets tag field => under c tag field fun tag => (readOctets c tag field).map .octets
  | .any field => (readAny c field).map fun (tag, bs) => .element tag bs
  | .integer tag field => under c tag field fun tag => (readInteger c tag field).map .integer
  | .nested tag field => under c tag field fun tag => (readNested c tag field).map .nested
  | .peek field => ⟨(peek c field).map .tag, c⟩
  | .atEnd => ⟨.ok (.flag (atEnd c)), c⟩
  | .finish field => ⟨(finish c field).map fun _ => .nothing, c⟩
  | .condition => (Condition.read c).map .condition
  | .fulfillment => (Fulfillment.read c).map .fulfillment

end Region

/-- The regions of a session, in the order in which they were opened. -/
abbrev Session (ρ : Type) := List ρ

/-- One step: an action on the region with the given number. There is no result if there is no
such region. -/
def Session.step {ρ ε : Type} [Region ρ ε] (s : Session ρ) (number : Nat) (action : Action) :
    Option (Except ε (Found ρ)) × Session ρ :=
  match s[number]? with
  | none => (none, s)
  | some c =>
    let r := Region.perform c action
    let s := s.set number r.after
    match r.result with
    | .ok (.nested inside) => (some r.result, s ++ [inside])
    | _ => (some r.result, s)

end Der

end HashConditions
