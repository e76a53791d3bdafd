/-!
# Condition types

There are five types. A type has a code, which numbers it in every binary encoding, and a name,
which stands for it in a URI. Two types are compound: their conditions are made from other
conditions.

Names are compared without regard to case. No letter outside ASCII has a letter of a name as its
lower case, so folding the ASCII letters decides the comparison for every text.
-/

namespace HashConditions

/-- The five ways in which a condition can be stated. -/
inductive ConditionType
  | preimageSha256
  | prefixSha256
  | thresholdSha256
  | rsaSha256
  | ed25519Sha256
deriving DecidableEq, Inhabited

namespace ConditionType

/-- All types, by ascending code. -/
def all : List ConditionType :=
  [preimageSha256, prefixSha256, thresholdSha256, rsaSha256, ed25519Sha256]

theorem mem_all (t : ConditionType) : t ∈ all := by
  cases t <;> decide

/-- The number of a type. -/
def code : ConditionType → Nat
  | preimageSha256 => 0
  | prefixSha256 => 1
  | thresholdSha256 => 2
  | rsaSha256 => 3
  | ed25519Sha256 => 4

/-- The type with the given number. -/
def ofCode? (n : Int) : Option ConditionType :=
  all.find? fun t => t.code = n

/-- The name of a type, as URIs write it. -/
def name : ConditionType → String
  | preimageSha256 => "preimage-sha-256"
  | prefixSha256 => "prefix-sha-256"
  | thresholdSha256 => "threshold-sha-256"
  | rsaSha256 => "rsa-sha-256"
  | ed25519Sha256 => "ed25519-sha-256"

/-- The type with the given name, in whatever case its letters are. -/
def ofLetters? (letters : List Char) : Option ConditionType :=
  all.find? fun t => t.name.toList = letters.map Char.toLower

/-- The type with the given name, in whatever case its letters are. -/
def ofName? (text : String) : Option ConditionType :=
  ofLetters? text.toList

/-- Whether conditions of the type are made from other conditions. -/
def isCompound : ConditionType → Bool
  | prefixSha256 | thresholdSha256 => true
  | _ => false

@[simp] theorem ofCode?_code (t : ConditionType) : ofCode? t.code = some t := by
  cases t <;> rfl

theorem ofCode?_eq_some_iff {n : Int} {t : ConditionType} : ofCode? n = some t ↔ n = t.code := by
  constructor
  · intro h
    have := List.find?_some h
    simp only [decide_eq_true_eq] at this
    exact this.symm
  · rintro rfl
    exact ofCode?_code t

theorem code_injective {s t : ConditionType} (h : s.code = t.code) : s = t := by
  have := ofCode?_code s
  rw [h, ofCode?_code] at this
  exact (Option.some.inj this).symm

@[simp] theorem ofName?_name (t : ConditionType) : ofName? t.name = some t := by
  cases t <;> decide

theorem ofLetters?_eq_some_iff {letters : List Char} {t : ConditionType} :
    ofLetters? letters = some t ↔ letters.map Char.toLower = t.name.toList := by
  constructor
  · intro h
    have := List.find?_some h
    simp only [decide_eq_true_eq] at this
    exact this.symm
  · intro h
    rw [ofLetters?, h]
    cases t <;> decide

end ConditionType

end HashConditions
