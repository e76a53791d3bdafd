import HashConditions.ConditionType

/-!
# Sets of condition types

A set is five yes-or-no answers, one per type, so two sets with the same members are equal
(`TypeSet.ext_contains`) and every question about a set is decided by running through the types.
-/

namespace HashConditions

/-- A set of condition types. -/
structure TypeSet where
  preimageSha256 : Bool
  prefixSha256 : Bool
  thresholdSha256 : Bool
  rsaSha256 : Bool
  ed25519Sha256 : Bool
deriving DecidableEq

namespace TypeSet

/-- The set of the types that satisfy a test. -/
def filter (keep : ConditionType → Bool) : TypeSet :=
  ⟨keep .preimageSha256, keep .prefixSha256, keep .thresholdSha256, keep .rsaSha256,
    keep .ed25519Sha256⟩

/-- Whether a type is in the set. -/
def contains (s : TypeSet) : ConditionType → Bool
  | .preimageSha256 => s.preimageSha256
  | .prefixSha256 => s.prefixSha256
  | .thresholdSha256 => s.thresholdSha256
  | .rsaSha256 => s.rsaSha256
  | .ed25519Sha256 => s.ed25519Sha256

instance : Membership ConditionType TypeSet where
  mem s t := s.contains t = true

instance (t : ConditionType) (s : TypeSet) : Decidable (t ∈ s) :=
  inferInstanceAs (Decidable (s.contains t = true))

theorem mem_iff {t : ConditionType} {s : TypeSet} : t ∈ s ↔ s.contains t = true := Iff.rfl

@[simp] theorem contains_filter (keep : ConditionType → Bool) (t : ConditionType) :
    (filter keep).contains t = keep t := by
  cases t <;> rfl

@[simp] theorem mem_filter {keep : ConditionType → Bool} {t : ConditionType} :
    t ∈ filter keep ↔ keep t = true := by
  rw [mem_iff, contains_filter]

/-- Sets with the same members are equal. -/
theorem ext_contains {s u : TypeSet} (h : ∀ t, t ∈ s ↔ t ∈ u) : s = u := by
  have h' : ∀ t, s.contains t = u.contains t := fun t => Bool.eq_iff_iff.2 (h t)
  have h0 := h' .preimageSha256
  have h1 := h' .prefixSha256
  have h2 := h' .thresholdSha256
  have h3 := h' .rsaSha256
  have h4 := h' .ed25519Sha256
  cases s
  cases u
  simp_all [contains]

/-- The set without members. -/
def empty : TypeSet :=
  filter fun _ => false

/-- The set of the types in a list. -/
def ofList (types : List ConditionType) : TypeSet :=
  filter fun t => types.contains t

/-- The members, by ascending code. -/
def toList (s : TypeSet) : List ConditionType :=
  ConditionType.all.filter s.contains

@[simp] theorem not_mem_empty (t : ConditionType) : t ∉ empty := by
  simp [empty]

@[simp] theorem mem_ofList {types : List ConditionType} {t : ConditionType} :
    t ∈ ofList types ↔ t ∈ types := by
  simp [ofList]

@[simp] theorem mem_toList {s : TypeSet} {t : ConditionType} : t ∈ s.toList ↔ t ∈ s := by
  simp [toList, ConditionType.mem_all, mem_iff]

@[simp] theorem ofList_toList (s : TypeSet) : ofList s.toList = s :=
  ext_contains fun t => by simp

end TypeSet

end HashConditions
