import HashConditions.Condition.Cost
import HashConditions.Offered.Convert

/-!
# Costs from offered values

Costs may be amounts of either sort, and so may what is computed from them. Only lengths of
sequences and the number of costs that are counted have to be integers. For integers the functions
agree with those of `HashConditions.Condition.Cost`.
-/

namespace HashConditions

namespace Cost

/-- The number that a value passes for. -/
def amountOf (v : Offered) : Except Failure Amount :=
  match v.amount? with
  | some a => .ok a
  | none => .error (.unsuitable v.kind)

/-- The sum of two amounts. -/
def sum (a b : Amount) : Except Unrepresentable Amount :=
  match a.add? b with
  | some c => .ok c
  | none => .error .floatingRange

/-- The sum of amounts, added one by one to the first. -/
def sumFrom (first : Amount) (rest : List Amount) : Except Unrepresentable Amount :=
  rest.foldlM sum first

/-- The cost of a preimage. -/
def offerPreimage (preimage : Offered) : Except Failure Nat :=
  preimage.toSize

/-- The cost of a prefix over a subcondition. The terms are added from the left. -/
def offerPrefix (lead maxMessageLength sub : Offered) : Except Failure Amount := do
  let length ← sum (.whole (← lead.toSize)) (← amountOf maxMessageLength)
  sum (← sum length (← amountOf sub)) (.whole overhead)

/-- Amounts from the largest down. -/
def descendingAmounts (costs : List Amount) : List Amount :=
  costs.mergeSort fun a b => !a.below b

/-- The cost of a threshold over subconditions with the costs that are offered. -/
def offerThreshold (demanded costs : Offered) : Except Failure Amount := do
  let count ← costs.toSize
  let least ← amountOf demanded
  if (Amount.whole count).below least then
    throw (.invalid (.thresholdExceeds (← demanded.shown) count))
  let costs ← (← costs.toItems).mapM amountOf
  let counted := takeSigned (← demanded.toIndex) (descendingAmounts costs)
  sum (← sumFrom (.whole 0) counted) (.whole (overhead * count))

/-- The cost of an RSA signature. -/
def offerRsa (modulus : Offered) : Except Failure Nat := do
  return rsa (← modulus.toIndex)

/-! ### Integers

Costs that are integers go through the functions of `HashConditions.Condition.Cost`. -/

theorem mapM_amountOf (costs : List Int) :
    (costs.map Offered.integer).mapM amountOf = .ok (costs.map Amount.whole) := by
  induction costs with
  | nil => rfl
  | cons n ns ih =>
    simp only [List.map_cons, List.mapM_cons, ih]
    rfl

theorem sumFrom_whole (first : Int) (rest : List Int) :
    sumFrom (.whole first) (rest.map .whole) = .ok (.whole (first + total rest)) := by
  induction rest generalizing first with
  | nil => simp [sumFrom, total, pure, Except.pure]
  | cons n ns ih =>
    have step : sum (.whole first) (.whole n) = .ok (.whole (first + n)) := rfl
    have rest := ih (first + n)
    simp only [sumFrom, List.map_cons, List.foldlM_cons, step, bind, Except.bind] at rest ⊢
    simp [rest, total, Int.add_assoc]

theorem descendingAmounts_whole (costs : List Int) :
    descendingAmounts (costs.map .whole) = (descending costs).map .whole := by
  refine (List.map_mergeSort fun a _ b _ => ?_).symm
  rw [Amount.below_whole, ← decide_not, decide_eq_decide]
  omega

theorem takeSigned_map {α β : Type} (f : α → β) (count : Int) (items : List α) :
    takeSigned count (items.map f) = (takeSigned count items).map f := by
  simp [takeSigned, List.map_take]

theorem offerThreshold_integer (demanded : Int) (costs : List Int) :
    offerThreshold (.integer demanded) (.list (costs.map .integer)) =
      (threshold demanded costs).map .whole := by
  have items : Offered.toItems (.list (costs.map .integer)) = .ok (costs.map .integer) := rfl
  have size : Offered.toSize (.list (costs.map .integer)) = .ok costs.length := by
    simp [Offered.toSize, items, Except.map]
  have amount : amountOf (.integer demanded) = .ok (.whole demanded) := rfl
  have index : Offered.toIndex (.integer demanded) = .ok demanded := rfl
  have shown : (Offered.integer demanded).shown = decimalText demanded := rfl
  unfold offerThreshold threshold threshold?
  simp only [size, amount, items, index, shown, bind, Except.bind, Amount.below_whole]
  by_cases h : (costs.length : Int) < demanded
  · simp only [h, decide_true, if_true]
    cases decimalText demanded <;> rfl
  · simp only [h, decide_false, if_false, mapM_amountOf, descendingAmounts_whole, takeSigned_map,
      sumFrom_whole, Int.zero_add]
    rfl

end Cost

end HashConditions
