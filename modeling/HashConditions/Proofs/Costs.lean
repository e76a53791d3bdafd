import HashConditions.Condition.Cost

/-!
# The cost of a threshold

A threshold costs as much as the most expensive subconditions, as many as it demands, and an
overhead for each subcondition. Sorting the costs decides which those are, so the order in which
the subconditions are given does not matter (`Cost.threshold?_eq_of_perm`), and no choice of as
many subconditions is more expensive (`Cost.total_le_most`).

## Main results

* `Cost.threshold?_eq_some_iff` — when a threshold has a cost, and which
* `Cost.threshold?_eq_of_perm` — the order of the costs does not matter
* `Cost.total_le_most` — what is counted is the worst case
-/

namespace HashConditions

namespace Cost

variable {as bs costs chosen : List Int} {n : Int}

/-! ### Sums -/

@[simp] theorem total_nil : total [] = 0 := rfl

@[simp] theorem total_cons (n : Int) (costs : List Int) : total (n :: costs) = n + total costs :=
  rfl

@[simp] theorem total_append (as bs : List Int) : total (as ++ bs) = total as + total bs := by
  induction as with
  | nil => rw [List.nil_append, total_nil, Int.zero_add]
  | cons a as ih => rw [List.cons_append, total_cons, total_cons, ih, Int.add_assoc]

theorem total_eq_of_perm (h : as.Perm bs) : total as = total bs := by
  induction h with
  | nil => rfl
  | cons a _ ih => rw [total_cons, total_cons, ih]
  | swap a b _ =>
    rw [total_cons, total_cons, total_cons, total_cons]
    omega
  | trans _ _ first second => rw [first, second]

theorem total_nonneg (h : ∀ n ∈ costs, 0 ≤ n) : 0 ≤ total costs := by
  induction costs with
  | nil => exact Int.le_refl 0
  | cons n costs ih =>
    have head := h n (List.mem_cons_self ..)
    have tail := ih fun m hm => h m (List.mem_cons_of_mem _ hm)
    exact Int.add_nonneg head tail

/-! ### From the largest down -/

theorem descending_perm (costs : List Int) : (descending costs).Perm costs :=
  List.mergeSort_perm ..

theorem descending_sorted (costs : List Int) : (descending costs).Pairwise fun a b => b ≤ a := by
  have sorted : (descending costs).Pairwise fun a b => decide (b ≤ a) = true := by
    apply List.pairwise_mergeSort
    · intro a b c hab hbc
      rw [decide_eq_true_eq] at hab hbc ⊢
      exact Int.le_trans hbc hab
    · intro a b
      rw [Bool.or_eq_true, decide_eq_true_eq, decide_eq_true_eq]
      exact Int.le_total b a
  exact sorted.imp of_decide_eq_true

/-- There is one list of the same costs that descends. -/
theorem descending_eq_of_sorted (h : as.Perm bs) (sorted : bs.Pairwise fun a b => b ≤ a) :
    descending as = bs :=
  ((descending_perm as).trans h).eq_of_pairwise (fun _ _ _ _ hab hba => Int.le_antisymm hba hab)
    (descending_sorted as) sorted

theorem descending_eq_of_perm (h : as.Perm bs) : descending as = descending bs :=
  descending_eq_of_sorted (h.trans (descending_perm bs).symm) (descending_sorted bs)

/-! ### The most expensive -/

/-- The sum of the `count` largest costs. -/
def most (count : Nat) (costs : List Int) : Int :=
  total ((descending costs).take count)

theorem most_nonneg (count : Nat) (h : ∀ n ∈ costs, 0 ≤ n) : 0 ≤ most count costs := by
  apply total_nonneg
  intro n hn
  exact h n ((descending_perm costs).mem_iff.mp (List.mem_of_mem_take hn))

/-- If all costs are counted, then it does not matter which are the largest. -/
theorem most_length (costs : List Int) : most costs.length costs = total costs := by
  have all := (descending_perm costs).length_eq
  rw [most, List.take_of_length_le (Nat.le_of_eq all), total_eq_of_perm (descending_perm costs)]

theorem most_le_total (count : Nat) (h : ∀ n ∈ costs, 0 ≤ n) : most count costs ≤ total costs := by
  have rest : 0 ≤ total ((descending costs).drop count) := by
    apply total_nonneg
    intro n hn
    exact h n ((descending_perm costs).mem_iff.mp (List.mem_of_mem_drop hn))
  calc most count costs
    _ ≤ most count costs + total ((descending costs).drop count) := Int.le_add_of_nonneg_right rest
    _ = total (descending costs) := by rw [most, ← total_append, List.take_append_drop]
    _ = total costs := total_eq_of_perm (descending_perm costs)

theorem takeSigned_natCast {α : Type} (count : Nat) (items : List α) :
    takeSigned count items = items.take count := by
  rw [takeSigned, if_neg (Int.not_lt.mpr (Int.natCast_nonneg count)), Int.toNat_natCast]

/-- A threshold has a cost if it does not demand more than there is. -/
theorem threshold?_eq_some_iff {demanded : Nat} :
    threshold? demanded costs = some n ↔
      demanded ≤ costs.length ∧ n = most demanded costs + overhead * costs.length := by
  rw [threshold?, takeSigned_natCast, ← most]
  split
  · next more =>
    constructor
    · intro h
      exact nomatch h
    · intro h
      omega
  · next enough =>
    constructor
    · intro h
      exact ⟨by omega, (Option.some.inj h).symm⟩
    · rintro ⟨-, rfl⟩
      rfl

/-- The overhead comes on top of what a threshold counts. -/
theorem most_le_of_threshold? {demanded : Nat} (h : threshold? demanded costs = some n) :
    most demanded costs ≤ n := by
  obtain ⟨-, rfl⟩ := threshold?_eq_some_iff.mp h
  exact Int.le_add_of_nonneg_right (Int.mul_nonneg (Int.natCast_nonneg _) (Int.natCast_nonneg _))

theorem threshold?_eq_of_perm (demanded : Int) (h : as.Perm bs) :
    threshold? demanded as = threshold? demanded bs := by
  rw [threshold?, threshold?, h.length_eq, descending_eq_of_perm h]

/-- One more of a list that descends from `n` adds no more than `n`. -/
theorem total_take_succ_le (count : Nat) (below : ∀ m ∈ costs, m ≤ n) (h : count < costs.length) :
    total (costs.take (count + 1)) ≤ n + total (costs.take count) := by
  have last : costs[count] ≤ n := below _ (List.getElem_mem h)
  rw [List.take_add_one, List.getElem?_eq_getElem h, total_append, Option.toList_some, total_cons,
    total_nil]
  omega

/-- No members of a descending list exceed the first ones, as many as they are. -/
theorem total_le_total_take (h : chosen.Sublist costs)
    (sorted : costs.Pairwise fun a b => b ≤ a) :
    total chosen ≤ total (costs.take chosen.length) := by
  induction h with
  | slnil => exact Int.le_refl 0
  | @cons chosen costs a h ih =>
    obtain ⟨largest, sorted⟩ := List.pairwise_cons.mp sorted
    -- The first cost was passed over, so the last of the others makes room for it.
    cases chosen with
    | nil => exact Int.le_refl 0
    | cons b chosen =>
      refine Int.le_trans (ih sorted) ?_
      rw [List.length_cons, List.take_succ_cons, total_cons]
      exact total_take_succ_le _ largest h.length_le
  | @cons_cons chosen costs a _ ih =>
    have rest := ih (List.pairwise_cons.mp sorted).2
    rw [List.length_cons, List.take_succ_cons, total_cons, total_cons]
    exact Int.add_le_add_left rest a

/-- **The worst case.** No choice of as many costs exceeds what a threshold counts. -/
theorem total_le_most (h : chosen.Sublist costs) : total chosen ≤ most chosen.length costs := by
  obtain ⟨same, perm, sublist⟩ := List.exists_perm_sublist h (descending_perm costs).symm
  rw [← total_eq_of_perm perm, ← perm.length_eq]
  exact total_le_total_take sublist (descending_sorted costs)

end Cost

end HashConditions
