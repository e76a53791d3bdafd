import HashConditions.Fulfillment.Basic
import HashConditions.Number.Amount

/-!
# Offered values

A caller who is not bound by types may offer anything: a number where octets are wanted, a text
where a condition is. `Offered` holds what can be offered, and the views below say what a value
passes for: a number, an integer, a sequence of items. Each operation that takes offered values
says in which order it looks at them; a value of a kind that it has no rule for is unsuitable.

A truth value passes for one or zero, but is no integer where an integer is asked for by kind.
-/

namespace HashConditions

/-- What octets are held in: an octet string, a buffer that can be written to, or a view of the
octets of another value. -/
inductive Holder
  | string
  | buffer
  | view
deriving DecidableEq

/-- A value of any kind. -/
inductive Offered
  | nothing
  | truth (b : Bool)
  | integer (n : Int)
  | floating (x : Floating)
  | text (s : String)
  | octets (holder : Holder) (bs : Bytes)
  | list (items : List Offered)
  | types (s : TypeSet)
  | condition (c : Condition)
  | fulfillment (f : Fulfillment)

/-- The name of a holder of octets in a message. -/
def Holder.name : Holder → String
  | string => "bytes"
  | buffer => "bytearray"
  | view => "memoryview"

/-- The name of the kind of a fulfillment in a message. -/
def Fulfillment.kind (f : Fulfillment) : String :=
  match f.type with
  | .preimageSha256 => "PreimageSha256Fulfillment"
  | .prefixSha256 => "PrefixSha256Fulfillment"
  | .thresholdSha256 => "ThresholdSha256Fulfillment"
  | .rsaSha256 => "RsaSha256Fulfillment"
  | .ed25519Sha256 => "Ed25519Sha256Fulfillment"

namespace Offered

/-- The name of the kind of a value in a message. -/
def kind : Offered → String
  | nothing => "NoneType"
  | truth _ => "bool"
  | integer _ => "int"
  | floating _ => "float"
  | text _ => "str"
  | octets holder _ => holder.name
  | list _ => "list"
  | types _ => "frozenset"
  | condition _ => "Condition"
  | fulfillment f => f.kind

/-! ### Numbers -/

/-- The number that a value passes for. -/
def amount? : Offered → Option Amount
  | truth b => some (.whole b.toNat)
  | integer n => some (.whole n)
  | floating x => some (.floating x)
  | _ => none

/-- An amount as a value. -/
def ofAmount : Amount → Offered
  | .whole n => integer n
  | .floating x => floating x

/-- The integer that a value is equal to. -/
def whole? (v : Offered) : Option Int :=
  v.amount?.bind Amount.whole?

/-- The integer that a value passes for. A floating-point number does not, even a whole one. -/
def index? : Offered → Option Int
  | truth b => some b.toNat
  | integer n => some n
  | _ => none

/-! ### Sequences -/

/-- The items of a value that can be gone through: octets are integers, the characters of a text
are texts, and the types in a set are their codes. -/
def items? : Offered → Option (List Offered)
  | text s => some (s.toList.map fun c => text (String.singleton c))
  | octets _ bs => some (bs.map fun b => integer b.toNat)
  | list items => some items
  | types s => some (s.toList.map fun t => integer t.code)
  | _ => none

/-- The number of items of a value. -/
def size? (v : Offered) : Option Nat :=
  v.items?.map List.length

/-- Whether a value counts as nothing: it is zero, false, or has no items. -/
def isBlank (v : Offered) : Bool :=
  match v with
  | nothing => true
  | _ => v.amount?.any (·.same (.whole 0)) || v.size? == some 0

/-! ### Equality -/

mutual

/-- Whether two values are equal. Numbers are compared by their values and octets without regard
to what holds them. -/
def same : Offered → Offered → Bool
  | nothing, nothing => true
  | text s, text t => s == t
  | octets _ a, octets _ b => a == b
  | list a, list b => sameItems a b
  | types s, types t => s == t
  | condition c, condition d => c == d
  | fulfillment f, fulfillment g => f.same g
  | a, b => (a.amount?.bind fun m => b.amount?.map m.same).getD false

/-- Whether two lists have equal items. -/
def sameItems : List Offered → List Offered → Bool
  | [], [] => true
  | a :: as, b :: bs => same a b && sameItems as bs
  | _, _ => false

end

end Offered

end HashConditions
