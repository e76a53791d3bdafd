import HashConditions.Bytes.Basic
import HashConditions.Failure.Invalid
import HashConditions.TypeSet

/-!
# Conditions

A condition is a public commitment to an event. It holds a type, a fingerprint of the size of a
digest, a cost, and, for a compound type, the set of types beneath it, to which its own type
does not belong. These rules are part of the type `Condition`; `Condition.make` checks them, in
the order in which a violation is reported.

Two conditions are equal when type, fingerprint, cost and subtypes are. Verification relies on
that comparison.
-/

namespace HashConditions

/-- The number of octets of a fingerprint. -/
def fingerprintLength : Nat :=
  32

/-- Whether a condition of the given type may have these subtypes: a compound one has a set
without its own type, and a simple one has none. -/
def Admissible (type : ConditionType) : Option TypeSet → Prop
  | none => type.isCompound = false
  | some subtypes => type.isCompound = true ∧ type ∉ subtypes

instance (type : ConditionType) :
    (subtypes : Option TypeSet) → Decidable (Admissible type subtypes)
  | none => inferInstanceAs (Decidable (type.isCompound = false))
  | some subtypes => inferInstanceAs (Decidable (type.isCompound = true ∧ type ∉ subtypes))

/-- A public commitment to an event. -/
structure Condition where
  type : ConditionType
  fingerprint : Bytes
  cost : Nat
  subtypes : Option TypeSet
  length_fingerprint : fingerprint.length = fingerprintLength
  cost_le : cost ≤ maxQuantity
  admissible : Admissible type subtypes
deriving DecidableEq

theorem Quantity.check_eq_ok_iff {what : Quantity} {n : Int} {k : Nat} :
    what.check n = .ok k ↔ n = k ∧ k ≤ maxQuantity := by
  rw [Quantity.check]
  grind

namespace Condition

/-- What is wrong with subtypes that are not admissible. -/
def subtypesFault (type : ConditionType) : Option TypeSet → Invalid
  | none => .subtypesMissing type
  | some _ => if type.isCompound then .ownSubtype type else .subtypesForbidden type

/-- The condition with the given parts. -/
def make (type : ConditionType) (fingerprint : Bytes) (cost : Int) (subtypes : Option TypeSet) :
    Except Invalid Condition :=
  if hf : fingerprint.length = fingerprintLength then
    match hc : Quantity.cost.check cost with
    | .error why => .error why
    | .ok n =>
      if ha : Admissible type subtypes then
        .ok ⟨type, fingerprint, n, subtypes, hf, (Quantity.check_eq_ok_iff.1 hc).2, ha⟩
      else .error (subtypesFault type subtypes)
  else .error (.fingerprintLength fingerprint.length)

/-- Whether the condition is made from other conditions. -/
def isCompound (c : Condition) : Bool :=
  c.type.isCompound

theorem make_eq_ok_iff {type : ConditionType} {fingerprint : Bytes} {cost : Int}
    {subtypes : Option TypeSet} {c : Condition} :
    make type fingerprint cost subtypes = .ok c ↔
      c.type = type ∧ c.fingerprint = fingerprint ∧ (c.cost : Int) = cost ∧
        c.subtypes = subtypes := by
  obtain ⟨t, f, n, s, hf, hn, ha⟩ := c
  rw [make]
  constructor
  · intro h
    split at h
    · split at h
      · simp at h
      · next k hk =>
        have := (Quantity.check_eq_ok_iff.1 hk).1
        split at h
        · cases h
          simp_all
        · simp at h
    · simp at h
  · rintro ⟨rfl, rfl, rfl, rfl⟩
    have hk : Quantity.cost.check (n : Int) = .ok n := Quantity.check_eq_ok_iff.2 ⟨rfl, hn⟩
    rw [dite_cond_eq_true (eq_true hf)]
    split
    · next heq => simp [hk] at heq
    · next k heq =>
      rw [dite_cond_eq_true (eq_true ha)]
      have : n = k := by simpa [hk] using heq
      subst this
      rfl

/-- Every condition is made from its parts. -/
theorem make_self (c : Condition) :
    make c.type c.fingerprint c.cost c.subtypes = .ok c :=
  make_eq_ok_iff.2 ⟨rfl, rfl, rfl, rfl⟩

end Condition

end HashConditions
