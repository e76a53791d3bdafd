import HashConditions.Number.Floating

/-!
# Amounts

An amount is an integer or a floating-point number. The two are compared by their values, exactly
and whatever their sizes; an undefined number compares with nothing. A sum is an integer if its
terms are, and else a floating-point number, to which an integer among the terms has to be rounded
first.
-/

namespace HashConditions

/-- A number of either sort. -/
inductive Amount
  | whole (n : Int)
  | floating (x : Floating)
deriving DecidableEq

namespace Amount

/-- The integer that an amount is equal to. -/
def whole? : Amount → Option Int
  | whole n => some n
  | floating x => x.whole?

/-- Whether an amount is a number at all. -/
def isDefined : Amount → Bool
  | floating .undefined => false
  | _ => true

/-- Where an amount stands in the order: above or below all finite ones, or among them by its
number of steps. -/
def place : Amount → Int × Int
  | whole n => (0, n * Floating.unit)
  | floating (.infinite negative) => (if negative then -1 else 1, 0)
  | floating x => (0, x.signedSteps)

/-- Whether two amounts have one value. -/
def same (a b : Amount) : Bool :=
  a.isDefined && b.isDefined && a.place == b.place

/-- Whether an amount is below another. -/
def below (a b : Amount) : Bool :=
  let (p, m) := a.place
  let (q, n) := b.place
  a.isDefined && b.isDefined && (p < q || (p == q && m < n))

@[simp] theorem same_whole {m n : Int} : (whole m).same (whole n) = decide (m = n) := by
  have unit : (Floating.unit : Int) ≠ 0 := by decide +kernel
  simpa [same, isDefined, place, Bool.beq_eq_decide_eq] using Int.mul_eq_mul_right_iff unit

@[simp] theorem below_whole {m n : Int} : (whole m).below (whole n) = decide (m < n) := by
  have unit : 0 < (Floating.unit : Int) := by decide +kernel
  simp [below, isDefined, place, Int.mul_lt_mul_right unit]

/-- The floating-point number nearest to an amount, which is none if it would be infinite. -/
def toFloating? : Amount → Option Floating
  | floating x => some x
  | whole n =>
    match Floating.ofRatio (n < 0) n.natAbs 1 with
    | .infinite _ => none
    | x => some x

/-- The sum of two amounts, unless an integer in it is out of range. -/
def add? : Amount → Amount → Option Amount
  | whole m, whole n => some (whole (m + n))
  | a, b => do return floating ((← a.toFloating?).add (← b.toFloating?))

/-- The difference of two amounts, unless an integer in it is out of range. -/
def minus? : Amount → Amount → Option Amount
  | whole m, whole n => some (whole (m - n))
  | a, b => do return floating ((← a.toFloating?).add (← b.toFloating?).neg)

end Amount

end HashConditions
