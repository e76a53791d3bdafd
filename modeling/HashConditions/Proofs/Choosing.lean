import HashConditions.Proofs.Building
import HashConditions.Proofs.Costs

/-!
# Any choice of children will do

The condition of a threshold does not tell its subconditions apart by their places: the contents
hold their encodings in canonical order, the cost counts the largest costs, and the subtypes are
what any of them mentions. So it is the same for every order in which they are given
(`Condition.ofThreshold_eq_of_perm`).

A fulfillment of a threshold sorts the children it fulfills by their encodings, which hold their
signatures, and the others by the encodings of their conditions. Neither shows in the condition. So
whichever children are fulfilled, as many as the threshold demands, the fulfillment is one of the
condition that was derived from all of them before anyone knew which it would be
(`Fulfillment.condition_ofThreshold_of_split`).
-/

namespace HashConditions

variable {subs others : List Condition}

/-! ### The order of subconditions -/

theorem Contents.threshold_eq_of_perm (demanded : Nat) (h : subs.Perm others) :
    threshold demanded subs = threshold demanded others := by
  rw [threshold, threshold, Bytes.sortCanonical_eq_iff.mpr (h.map Condition.encode)]

theorem compoundSubtypes_eq_of_perm (own : ConditionType) (h : subs.Perm others) :
    compoundSubtypes own subs = compoundSubtypes own others := by
  rw [compoundSubtypes, compoundSubtypes]
  congr 1
  funext t
  rw [h.any_eq]

/-- The condition of a threshold, or the reason why there is none, is the same for every order of
the subconditions. -/
theorem Condition.ofThreshold_eq_of_perm (threshold : Int) (h : subs.Perm others) :
    ofThreshold threshold subs = ofThreshold threshold others := by
  have costs : (subs.map fun c => (c.cost : Int)).Perm (others.map fun c => (c.cost : Int)) :=
    h.map _
  rw [ofThreshold, ofThreshold, h.length_eq]
  simp only [Cost.threshold?_eq_of_perm _ costs, Contents.threshold_eq_of_perm _ h,
    compoundSubtypes_eq_of_perm _ h]

namespace Fulfillment

variable {left left' : List Condition} {fulfilled fulfilled' : List Fulfillment}

theorem allSubconditions_perm (hl : left'.Perm left) (hf : fulfilled'.Perm fulfilled) :
    (allSubconditions left' fulfilled').Perm (allSubconditions left fulfilled) :=
  hl.append (hf.map condition)

/-- A threshold fulfills the condition of all its children, in whatever order it keeps them. -/
theorem map_condition_ofThreshold (some : fulfilled ≠ []) :
    (ofThreshold left fulfilled).map condition =
      Condition.ofThreshold fulfilled.length (allSubconditions left fulfilled) := by
  have sorted := allSubconditions_perm (Bytes.sortBy_perm Condition.encode left)
    (Bytes.sortBy_perm encode fulfilled)
  rw [ofThreshold, if_neg (mt List.isEmpty_iff.mp some),
    ← Condition.ofThreshold_eq_of_perm _ sorted]
  simp only [(Bytes.sortBy_perm encode fulfilled).length_eq]
  cases Condition.ofThreshold fulfilled.length
    (allSubconditions (Bytes.sortBy Condition.encode left) (Bytes.sortBy encode fulfilled)) with
  | error why => rfl
  | ok c => rfl

/-! ### The choice of children -/

/-- Some of the subconditions in a list are fulfilled and the others are left open: position by
position, a subcondition is either left or given a fulfillment of it. -/
inductive Split : List Condition → List Condition → List Fulfillment → Prop
  | nil : Split [] [] []
  | left {subs left : List Condition} {fulfilled : List Fulfillment} (c : Condition) :
      Split subs left fulfilled → Split (c :: subs) (c :: left) fulfilled
  | fulfilled {subs left : List Condition} {fulfilled : List Fulfillment} {c : Condition}
      (f : Fulfillment) : f.condition = c → Split subs left fulfilled →
      Split (c :: subs) left (f :: fulfilled)

/-- A split neither loses a child nor adds one. -/
theorem Split.perm (h : Split subs left fulfilled) :
    (allSubconditions left fulfilled).Perm subs := by
  induction h with
  | nil => exact .nil
  | left c _ ih => exact ih.cons c
  | fulfilled f same _ ih =>
    subst same
    exact List.perm_middle.trans (ih.cons f.condition)

/-- **Any choice of children will do.** Whichever `threshold` subconditions are fulfilled, and in
whatever order the fulfillments and the subconditions that are left open are handed over, the
fulfillment exists if and only if the condition of all subconditions does, and it is one of that
condition. If there is none, both are refused for the same reason. -/
theorem condition_ofThreshold_of_split {threshold : Nat} (pos : 1 ≤ threshold)
    (split : Split subs left fulfilled) (count : fulfilled.length = threshold)
    (hl : left'.Perm left) (hf : fulfilled'.Perm fulfilled) :
    (ofThreshold left' fulfilled').map condition = Condition.ofThreshold threshold subs := by
  have length : fulfilled'.length = threshold := hf.length_eq.trans count
  have some : fulfilled' ≠ [] := by
    rintro rfl
    rw [List.length_nil] at length
    omega
  rw [map_condition_ofThreshold some, length]
  exact Condition.ofThreshold_eq_of_perm _ ((allSubconditions_perm hl hf).trans split.perm)

/-- Two of three subconditions are fulfilled, the first of which occurs twice: the second and the
third, which are handed over the other way round, or the first and the third, which have the same
fulfillment. The condition exists, and both ways fulfill it. -/
theorem condition_ofThreshold_of_split_twice :
    ∃ (f g : Fulfillment) (c : Condition), f.Constructible ∧ g.Constructible ∧
      Split [f.condition, g.condition, f.condition] [f.condition] [g, f] ∧
      Split [f.condition, g.condition, f.condition] [g.condition] [f, f] ∧
      Condition.ofThreshold 2 [f.condition, g.condition, f.condition] = .ok c ∧
      (ofThreshold [f.condition] [f, g]).map condition = .ok c ∧
      (ofThreshold [g.condition] [f, f]).map condition = .ok c := by
  have short : (ofPreimage [7]).toOption.map (·.condition.cost) = some 1 := by
    decide +kernel
  have long : (ofPreimage [7, 7]).toOption.map (·.condition.cost) = some 2 := by
    decide +kernel
  obtain ⟨f, hf, costs_one⟩ := exists_ok_of_map_toOption short
  obtain ⟨g, hg, costs_two⟩ := exists_ok_of_map_toOption long
  obtain ⟨c, hc⟩ : ∃ c, Condition.ofThreshold (2 : Nat)
      [f.condition, g.condition, f.condition] = .ok c := by
    refine Condition.exists_ofThreshold (Nat.succ_pos 1) (Nat.le_succ 2) ?_
    simp only [List.map_cons, List.map_nil, costs_one, costs_two]
    show Cost.total [1, 2, 1] + Cost.overhead * 3 ≤ maxQuantity
    decide
  have adjacent : Split [f.condition, g.condition, f.condition] [f.condition] [g, f] :=
    .left _ (.fulfilled g rfl (.fulfilled f rfl .nil))
  have apart : Split [f.condition, g.condition, f.condition] [g.condition] [f, f] :=
    .fulfilled f rfl (.left _ (.fulfilled f rfl .nil))
  refine ⟨f, g, c, .preimage hf, .preimage hg, adjacent, apart, hc, ?_, ?_⟩
  · rw [← hc]
    exact condition_ofThreshold_of_split (Nat.le_succ 1) adjacent rfl (.refl _) (.swap g f [])
  · rw [← hc]
    exact condition_ofThreshold_of_split (Nat.le_succ 1) apart rfl (.refl _) (.refl _)

end Fulfillment

end HashConditions
