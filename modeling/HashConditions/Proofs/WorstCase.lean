import HashConditions.Proofs.Costs
import Mathlib.Algebra.Ring.Int.Defs
import Mathlib.Data.List.Forall2

/-!
# A threshold costs the worst case

Which subconditions will be fulfilled is not known when the condition of a threshold is derived, so
its cost has to cover every choice. It is the largest sum of as many costs as the threshold demands,
with the overhead on top: the costs that come first in descending order are one choice
(`Cost.worst_most`), and no other is worth more (`Cost.total_le_most`).

What a worst case does follows from that, not from the order. Every choice among given costs is
matched by one among higher costs, at the same places (`Cost.most_le_most_of_forall₂`), and every
choice can be enlarged.

A threshold that is too large is refused, and the refusal shows it. A number of more than 4300
digits cannot be shown, and that is then what fails.

## Main definitions

* `Cost.Worst` — the largest sum of a number of costs

## Main results

* `Cost.threshold_eq_worst` — what a threshold costs
-/

namespace HashConditions

namespace Cost

variable {costs others chosen as bs : List Int} {count demanded : Nat} {worst n : Int}

/-- No choice of `count` costs is worth more than `worst`, and one is worth as much. -/
structure Worst (count : Nat) (costs : List Int) (worst : Int) : Prop where
  attained : ∃ chosen : List Int, chosen.Sublist costs ∧ chosen.length = count ∧ chosen.sum = worst
  bound : ∀ chosen : List Int, chosen.Sublist costs → chosen.length = count → chosen.sum ≤ worst

theorem sum_eq_total (costs : List Int) : costs.sum = total costs := rfl

/-- The most expensive costs are a choice themselves, wherever they stand. -/
theorem worst_most (h : count ≤ costs.length) : Worst count costs (most count costs) where
  attained := by
    obtain ⟨chosen, same, sublist⟩ :=
      List.exists_perm_sublist (List.take_sublist count (descending costs)) (descending_perm costs)
    have enough : count ≤ (descending costs).length := by
      rwa [(descending_perm costs).length_eq]
    refine ⟨chosen, sublist, ?_, ?_⟩
    · rw [same.length_eq, List.length_take_of_le enough]
    · rw [sum_eq_total, total_eq_of_perm same, most]
  bound := by
    rintro chosen sublist rfl
    rw [sum_eq_total]
    exact total_le_most sublist

theorem Worst.eq (h : Worst count costs worst) (h' : Worst count costs n) : worst = n := by
  obtain ⟨chosen, sublist, length, rfl⟩ := h.attained
  obtain ⟨chosen', sublist', length', rfl⟩ := h'.attained
  exact Int.le_antisymm (h'.bound chosen sublist length) (h.bound chosen' sublist' length')

/-! ### Higher costs and larger thresholds -/

theorem total_le_total_of_forall₂ (h : List.Forall₂ (· ≤ ·) as bs) : total as ≤ total bs := by
  induction h with
  | nil => exact Int.le_refl 0
  | cons first _ ih =>
    rw [total_cons, total_cons]
    exact Int.add_le_add first ih

/-- A choice among some costs has its match among higher ones. -/
theorem most_le_most_of_forall₂ (h : List.Forall₂ (· ≤ ·) costs others)
    (enough : count ≤ costs.length) : most count costs ≤ most count others := by
  obtain ⟨chosen, sublist, length, paid⟩ := (worst_most enough).attained
  have raised : List.SublistForall₂ (· ≤ ·) costs others :=
    List.sublistForall₂_iff.mpr ⟨others, h, List.Sublist.refl others⟩
  have places : List.SublistForall₂ (· ≤ ·) chosen others :=
    IsTrans.trans _ _ _ sublist.sublistForall₂ raised
  obtain ⟨higher, above, within⟩ := List.sublistForall₂_iff.mp places
  calc most count costs
    _ = total chosen := by rw [← paid, sum_eq_total]
    _ ≤ total higher := total_le_total_of_forall₂ above
    _ ≤ most higher.length others := total_le_most within
    _ = most count others := by rw [← above.length_eq, length]

/-- A choice that is enlarged is not worth less, since no cost is negative. -/
theorem most_le_most_of_le (nonneg : ∀ n ∈ costs, 0 ≤ n) (h : count ≤ demanded) :
    most count costs ≤ most demanded costs := by
  have first : ((descending costs).take demanded).take count = (descending costs).take count := by
    rw [List.take_take, Nat.min_eq_left h]
  have more : 0 ≤ total (((descending costs).take demanded).drop count) := by
    apply total_nonneg
    intro n hn
    have among := List.mem_of_mem_take (List.mem_of_mem_drop hn)
    exact nonneg n ((descending_perm costs).mem_iff.mp among)
  calc most count costs
    _ ≤ most count costs + total (((descending costs).take demanded).drop count) :=
        Int.le_add_of_nonneg_right more
    _ = total (((descending costs).take demanded).take count ++
          ((descending costs).take demanded).drop count) := by rw [total_append, first, ← most]
    _ = most demanded costs := by rw [List.take_append_drop, ← most]

/-! ### The cost of a threshold -/

theorem threshold_eq_ok_iff : threshold demanded costs = .ok n ↔
    demanded ≤ costs.length ∧ n = most demanded costs + overhead * costs.length := by
  rw [← threshold?_eq_some_iff, threshold]
  cases threshold? demanded costs with
  | none =>
    cases decimalText demanded with
    | error why => exact ⟨nofun, nofun⟩
    | ok text => exact ⟨nofun, nofun⟩
  | some cost =>
    constructor
    · intro h
      exact congrArg some (Except.ok.inj h)
    · intro h
      exact congrArg Except.ok (Option.some.inj h)

/-- A threshold above the number of costs is refused by showing it, if it can be shown. -/
theorem threshold_of_lt (h : costs.length < demanded) : threshold demanded costs =
    .error (if Text.isLong demanded then .unrepresentable .manyDigits
      else .invalid (.thresholdExceeds (toString (demanded : Int)) costs.length)) := by
  have none : threshold? demanded costs = none := if_pos (Int.ofNat_lt.mpr h)
  rw [threshold, none, decimalText, Int.natAbs_natCast]
  by_cases long : Text.isLong demanded = true
  · rw [if_pos long, if_pos long]
    rfl
  · rw [if_neg long, if_neg long]
    rfl

theorem threshold_eq_of_perm (demanded : Int) (h : as.Perm bs) :
    threshold demanded as = threshold demanded bs := by
  rw [threshold, threshold, threshold?_eq_of_perm demanded h, h.length_eq]

/-- **A threshold costs the worst case.** It is 1024 for each cost and the largest sum of as many
costs as it demands. So it does not depend on their order, it grows with each of them and with the
threshold, and no choice is worth more. A threshold above the number of costs is refused as such, if
it has no more than 4300 digits. -/
theorem threshold_eq_worst (nonneg : ∀ n ∈ costs, 0 ≤ n) :
    (∀ demanded : Nat, demanded ≤ costs.length → ∃ worst, Worst demanded costs worst ∧
        threshold demanded costs = .ok (1024 * costs.length + worst)) ∧
      (∀ (demanded : Int) (others : List Int), others.Perm costs →
        threshold demanded others = threshold demanded costs) ∧
      (∀ (demanded : Nat) (others : List Int) (m n : Int), List.Forall₂ (· ≤ ·) costs others →
        threshold demanded costs = .ok m → threshold demanded others = .ok n → m ≤ n) ∧
      (∀ (count demanded : Nat) (m n : Int), count ≤ demanded →
        threshold count costs = .ok m → threshold demanded costs = .ok n → m ≤ n) ∧
      (∀ chosen : List Int, chosen.Sublist costs → ∃ n, threshold chosen.length costs = .ok n ∧
        1024 * costs.length + chosen.sum ≤ n) ∧
      (∀ demanded : Nat, costs.length < demanded → threshold demanded costs =
        .error (if Text.isLong demanded then .unrepresentable .manyDigits
          else .invalid (.thresholdExceeds (toString (demanded : Int)) costs.length))) := by
  refine ⟨?_, ?_, ?_, ?_, ?_, ?_⟩
  · intro demanded enough
    refine ⟨most demanded costs, worst_most enough, threshold_eq_ok_iff.mpr ⟨enough, ?_⟩⟩
    exact Int.add_comm _ _
  · intro demanded others h
    exact threshold_eq_of_perm demanded h
  · intro demanded others m n raised hm hn
    obtain ⟨enough, rfl⟩ := threshold_eq_ok_iff.mp hm
    obtain ⟨-, rfl⟩ := threshold_eq_ok_iff.mp hn
    rw [← raised.length_eq]
    exact Int.add_le_add_right (most_le_most_of_forall₂ raised enough) _
  · intro count demanded m n h hm hn
    obtain ⟨-, rfl⟩ := threshold_eq_ok_iff.mp hm
    obtain ⟨-, rfl⟩ := threshold_eq_ok_iff.mp hn
    exact Int.add_le_add_right (most_le_most_of_le nonneg h) _
  · intro chosen sublist
    refine ⟨_, threshold_eq_ok_iff.mpr ⟨sublist.length_le, rfl⟩, ?_⟩
    rw [Int.add_comm, sum_eq_total]
    exact Int.add_le_add_right (total_le_most sublist) _
  · intro demanded h
    exact threshold_of_lt h

/-- Two of three costs, the largest of which occurs twice. -/
theorem threshold_eq_worst_twice : (∀ n ∈ [5, 3, 5], (0 : Int) ≤ n) ∧
    Worst 2 [5, 3, 5] 10 ∧ threshold 2 [5, 3, 5] = .ok 3082 := by
  have nonneg : ∀ n ∈ [5, 3, 5], (0 : Int) ≤ n := by decide
  obtain ⟨worst, largest, paid⟩ := (threshold_eq_worst nonneg).1 2 (by decide)
  have ten : Worst 2 [5, 3, 5] 10 := by
    have sorted : descending [5, 3, 5] = [5, 5, 3] :=
      descending_eq_of_sorted (.cons 5 (.swap 5 3 [])) (by decide)
    have most_eq : most 2 [5, 3, 5] = 10 := by rw [most, sorted]; rfl
    exact most_eq ▸ worst_most (by decide)
  obtain rfl := largest.eq ten
  exact ⟨nonneg, ten, paid⟩

/-- The smallest threshold that cannot be shown exceeds the number of costs, and is not refused for
that. -/
theorem threshold_manyDigits :
    threshold (Nat.pow 10 Text.maxDigits : Nat) [] = .error (.unrepresentable .manyDigits) ∧
      ¬∃ why, threshold (Nat.pow 10 Text.maxDigits : Nat) [] = .error (.invalid why) := by
  have long : Text.isLong (Nat.pow 10 Text.maxDigits) = true := decide_eq_true (Nat.le_refl _)
  have fails : threshold (Nat.pow 10 Text.maxDigits : Nat) [] =
      .error (.unrepresentable .manyDigits) := by
    rw [threshold_of_lt (Nat.pow_pos (by decide)), if_pos long]
  refine ⟨fails, ?_⟩
  rintro ⟨why, refused⟩
  rw [fails] at refused
  cases refused

end Cost

end HashConditions
