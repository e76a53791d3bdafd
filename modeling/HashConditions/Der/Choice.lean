import HashConditions.Bytes.Order
import HashConditions.Der.Region

/-!
# Choices by tag

Conditions and fulfillments are constructed elements whose tag number is the code of their type.
`Region.choice` reads the header of such an element. What its content makes is a matter of the
type, and is left to the reader of that type.

A set of them is written as the concatenation of its elements in canonical order, equal neighbours
included (`Region.setOf`). Comparing each element with its predecessor decides the order, and the
first element that sorts before its predecessor is reported, before anything that is wrong behind
it.
-/

namespace HashConditions

namespace Der

/-- The two kinds of values that a tag can announce. -/
inductive Announced
  | condition
  | fulfillment
deriving DecidableEq

/-- The name of a kind, as failures to read its header show it. -/
def Announced.field : Announced → String
  | condition => "condition"
  | fulfillment => "fulfillment"

/-- The failure on a tag that stands for no type. -/
def Announced.unknown : Announced → UInt8 → Malformed.Fault
  | condition => .unknownCondition
  | fulfillment => .unknownFulfillment

/-- A delimited element whose tag stands for a type: the type, the region that the element starts,
the region of its content and the region behind it. -/
structure Choice (ρ : Type) where
  type : ConditionType
  start : ρ
  inside : ρ
  after : ρ

/-- The type that a constructed tag stands for. -/
def typeOfTag? (tag : UInt8) : Option ConditionType :=
  ConditionType.ofCode? (tag.toNat - constructedClass)

namespace Region

variable {ρ ε : Type} [Region ρ ε]

/-- The header of the condition or fulfillment at the start of the region. -/
def choice (c : ρ) (kind : Announced) : Except ε (Choice ρ) :=
  match peek c kind.field with
  | .error e => .error e
  | .ok tag =>
    match typeOfTag? tag with
    | none => .error (fail c (kind.unknown tag) kind.field)
    | some type =>
      match element c tag kind.field with
      | .error e => .error e
      | .ok e => .ok ⟨type, c, e.inside, e.after⟩

theorem size_of_choice {c : ρ} {kind : Announced} {found : Choice ρ}
    (h : choice c kind = .ok found) :
    size found.inside < size c ∧ size found.after < size c := by
  rw [choice] at h
  split at h
  · simp at h
  · split at h
    · simp at h
    · split at h
      · simp at h
      · next e he =>
        cases h
        exact size_of_element he

end Region

/-! ### Sets -/

/-- Reads conditions or fulfillments to the end of the region, each of which `make` completes
from its header. `previous` is the encoding of the element before the region, and the empty
string, which sorts before every other, if there is none. The bound `n` on the region tells
`make` that the contents it is given are smaller than the region. -/
def Region.setOf {ρ ε α : Type} [Region ρ ε] (kind : Announced) (field : String) (n : Nat)
    (make : (found : Choice ρ) → size found.inside < n → Except ε α)
    (c : ρ) (hc : size c ≤ n) (previous : Bytes) : Except ε (List α) :=
  if atEnd c then .ok []
  else
    match h : choice c kind with
    | .error e => .error e
    | .ok found =>
      have smaller := size_of_choice h
      match make found (Nat.lt_of_lt_of_le smaller.1 hc) with
      | .error e => .error e
      | .ok value =>
        let encoding := upTo c found.after
        if Bytes.lexLe previous encoding then
          match setOf kind field n make found.after (Nat.le_trans (Nat.le_of_lt smaller.2) hc)
              encoding with
          | .error e => .error e
          | .ok values => .ok (value :: values)
        else .error (fail c .unsortedSet field)
termination_by size c

end Der

end HashConditions
