import HashConditions.Bytes.Basic

/-!
# Canonical order

Sets are written with their elements sorted: octet by octet as unsigned numbers, and a string
that another one extends comes before it. `lexLe` decides the order, and the laws here make it a
linear order, so a sorted list of encodings is determined by its elements.

Sorting is stable. That matters where values are sorted by their encodings: values with one
encoding keep the order they were given in.
-/

namespace HashConditions

namespace Bytes

/-- Whether the first string comes no later than the second. -/
def lexLe : Bytes → Bytes → Bool
  | [], _ => true
  | _ :: _, [] => false
  | a :: as, b :: bs => if a < b then true else if b < a then false else lexLe as bs

@[simp] theorem lexLe_nil (bs : Bytes) : lexLe [] bs = true := by
  cases bs <;> rfl

@[simp] theorem lexLe_refl (bs : Bytes) : lexLe bs bs = true := by
  induction bs with
  | nil => rfl
  | cons b bs ih => simp [lexLe, ih]

theorem lexLe_total (as bs : Bytes) : (lexLe as bs || lexLe bs as) = true := by
  induction as generalizing bs with
  | nil => simp
  | cons a as ih =>
    cases bs with
    | nil => simp
    | cons b bs =>
      simp only [lexLe]
      split
      · simp
      · split
        · simp
        · exact ih bs

theorem lexLe_trans {as bs cs : Bytes} (hab : lexLe as bs = true) (hbc : lexLe bs cs = true) :
    lexLe as cs = true := by
  induction as generalizing bs cs with
  | nil => simp
  | cons a as ih =>
    cases bs with
    | nil => simp [lexLe] at hab
    | cons b bs =>
      cases cs with
      | nil => simp [lexLe] at hbc
      | cons c cs =>
        simp only [lexLe] at hab hbc ⊢
        grind

theorem lexLe_antisymm {as bs : Bytes} (hab : lexLe as bs = true) (hba : lexLe bs as = true) :
    as = bs := by
  induction as generalizing bs with
  | nil =>
    cases bs with
    | nil => rfl
    | cons b bs => simp [lexLe] at hba
  | cons a as ih =>
    cases bs with
    | nil => simp [lexLe] at hab
    | cons b bs =>
      simp only [lexLe] at hab hba
      grind

/-- Encodings in the order in which a set holds them. -/
def sortCanonical (items : List Bytes) : List Bytes :=
  items.mergeSort lexLe

/-- Values in the order of their encodings; values with one encoding stay in the order given. -/
def sortBy {α : Type} (encode : α → Bytes) (items : List α) : List α :=
  items.mergeSort fun x y => lexLe (encode x) (encode y)

theorem sortCanonical_perm (items : List Bytes) : (sortCanonical items).Perm items :=
  List.mergeSort_perm ..

theorem sortCanonical_sorted (items : List Bytes) :
    (sortCanonical items).Pairwise (lexLe · · = true) := by
  apply List.pairwise_mergeSort
  · exact fun _ _ _ => lexLe_trans
  · exact lexLe_total

theorem sortBy_perm {α : Type} (encode : α → Bytes) (items : List α) :
    (sortBy encode items).Perm items :=
  List.mergeSort_perm ..

theorem sortBy_sorted {α : Type} (encode : α → Bytes) (items : List α) :
    (sortBy encode items).Pairwise fun x y => lexLe (encode x) (encode y) = true := by
  apply List.pairwise_mergeSort
  · exact fun _ _ _ => lexLe_trans
  · exact fun _ _ => lexLe_total _ _

end Bytes

end HashConditions
