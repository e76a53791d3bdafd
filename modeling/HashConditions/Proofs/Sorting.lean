import HashConditions.Bytes.Order
import Mathlib.Data.List.Chain

/-!
# Sorted lists of encodings

The order of encodings is that of strings of unsigned numbers. It is antisymmetric, so a list of
encodings has one sorted form, and that form stands for the multiset of its members. Values that
are sorted by their encodings are not determined by them, but their encodings are: sorting values
and then writing them is the same as writing them and then sorting.

## Main results

* `Bytes.lexLe_iff`, `Bytes.sorted_iff_isChain` — the order, and sorted lists by their neighbours
* `Bytes.sortCanonical_eq_iff` — the sorted form says which encodings there are, and how often
* `Bytes.map_sortBy` — sorting values by their encodings sorts the encodings
* `Bytes.sortBy_of_sorted`, `Bytes.sortCanonical_of_sorted` — what is sorted stays as it is
* `Bytes.sortBy_eq_of_perm` — values with encodings of their own have one sorted list
-/

namespace HashConditions

namespace Bytes

/-- The order of encodings is the order of strings of unsigned numbers. -/
theorem lexLe_iff {as bs : Bytes} : lexLe as bs = true ↔ as ≤ bs := by
  induction as generalizing bs with
  | nil => simp
  | cons a as ih =>
    cases bs with
    | nil => simp [lexLe]
    | cons b bs =>
      rw [List.cons_le_cons_iff, lexLe]
      split
      · next lt => simp [lt]
      · next not_lt =>
        split
        · next gt => simp [not_lt, (UInt8.ne_of_lt gt).symm]
        · next not_gt =>
          obtain rfl : a = b := UInt8.le_antisymm (UInt8.not_lt.mp not_gt) (UInt8.not_lt.mp not_lt)
          simp [ih]

theorem lexLe_eq_false_iff {as bs : Bytes} : lexLe as bs = false ↔ bs < as := by
  rw [← Bool.not_eq_true, lexLe_iff, List.not_le]

/-- Encodings in canonical order, equal neighbours included. -/
def Sorted (items : List Bytes) : Prop :=
  items.Pairwise (lexLe · · = true)

theorem sorted_cons {item : Bytes} {items : List Bytes} :
    Sorted (item :: items) ↔ (∀ other ∈ items, lexLe item other = true) ∧ Sorted items :=
  List.pairwise_cons

/-- It is enough to compare neighbours, since the order is transitive. -/
theorem sorted_cons_cons {first second : Bytes} {items : List Bytes} :
    Sorted (first :: second :: items) ↔
      lexLe first second = true ∧ Sorted (second :: items) := by
  rw [sorted_cons]
  constructor
  · intro ⟨least, rest⟩
    exact ⟨least second (List.mem_cons_self ..), rest⟩
  · intro ⟨le, rest⟩
    refine ⟨fun other member => ?_, rest⟩
    rcases List.mem_cons.mp member with rfl | member
    · exact le
    · exact lexLe_trans le ((sorted_cons.mp rest).1 other member)

theorem sorted_iff_isChain {items : List Bytes} : Sorted items ↔ items.IsChain (· ≤ ·) := by
  rw [List.isChain_iff_pairwise, Sorted]
  simp only [lexLe_iff]

/-- Two sorted lists of the same encodings are the same list. -/
theorem Sorted.eq_of_perm {as bs : List Bytes} (ha : Sorted as) (hb : Sorted bs)
    (h : as.Perm bs) : as = bs :=
  List.Perm.eq_of_pairwise (fun _ _ _ _ hab hba => lexLe_antisymm hab hba) ha hb h

theorem sorted_sortCanonical (items : List Bytes) : Sorted (sortCanonical items) :=
  sortCanonical_sorted items

theorem sortCanonical_of_sorted {items : List Bytes} (h : Sorted items) :
    sortCanonical items = items :=
  List.mergeSort_of_pairwise h

/-- **The sorted form of a multiset.** Sorting forgets the order of the encodings and nothing
else. -/
theorem sortCanonical_eq_iff {as bs : List Bytes} :
    sortCanonical as = sortCanonical bs ↔ as.Perm bs := by
  constructor
  · intro h
    have step : as.Perm (sortCanonical bs) := h ▸ (sortCanonical_perm as).symm
    exact step.trans (sortCanonical_perm bs)
  · intro h
    have perm : (sortCanonical as).Perm (sortCanonical bs) :=
      (sortCanonical_perm as).trans (h.trans (sortCanonical_perm bs).symm)
    exact (sorted_sortCanonical as).eq_of_perm (sorted_sortCanonical bs) perm

/-! ### Values and their encodings -/

variable {α : Type} (encode : α → Bytes)

theorem sortBy_of_sorted {items : List α} (h : Sorted (items.map encode)) :
    sortBy encode items = items :=
  List.mergeSort_of_pairwise (List.pairwise_map.mp h)

/-- Sorting values by their encodings sorts the encodings. -/
theorem map_sortBy (items : List α) :
    (sortBy encode items).map encode = sortCanonical (items.map encode) :=
  List.map_mergeSort fun _ _ _ _ => rfl

theorem sorted_map_sortBy (items : List α) : Sorted ((sortBy encode items).map encode) := by
  rw [map_sortBy]
  exact sorted_sortCanonical _

@[simp] theorem sortBy_sortBy (items : List α) :
    sortBy encode (sortBy encode items) = sortBy encode items :=
  sortBy_of_sorted encode (sorted_map_sortBy encode items)

/-- Where no two values have one encoding, the order in which values are given does not show in
their sorted list. -/
theorem sortBy_eq_of_perm {items others : List α}
    (inj : ∀ x ∈ items, ∀ y ∈ items, encode x = encode y → x = y) (h : items.Perm others) :
    sortBy encode items = sortBy encode others := by
  have perm : (sortBy encode items).Perm (sortBy encode others) :=
    (sortBy_perm encode items).trans (h.trans (sortBy_perm encode others).symm)
  refine perm.eq_of_pairwise ?_ (sortBy_sorted encode items) (sortBy_sorted encode others)
  intro x y hx hy le ge
  have left : x ∈ items := (sortBy_perm encode items).mem_iff.mp hx
  have right : y ∈ items := h.mem_iff.mpr ((sortBy_perm encode others).mem_iff.mp hy)
  exact inj x left y right (lexLe_antisymm le ge)

end Bytes

end HashConditions
