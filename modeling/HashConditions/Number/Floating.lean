import HashConditions.Text.Numeral

/-!
# Floating-point numbers

A finite number of double precision is a whole number of steps of `2 ^ -1074`, and of those the
ones whose number of steps has at most 53 bits between its first and its last one. So the order
of finite numbers, their sums and the test for being whole are matters of integers, and rounding
is one function: to the nearest number of steps with 53 leading bits, and of two that are equally
near to the one whose last bit is zero. What needs `2 ^ 2098` steps or more is infinite.

Numbers of at most 53 bits are not rounded at all (`round_of_lt`).
-/

namespace HashConditions

/-- A floating-point number of double precision. -/
inductive Floating
  /-- A number of steps, up or down. There are two zeros. -/
  | finite (negative : Bool) (steps : Nat)
  /-- A number too large to count in steps. -/
  | infinite (negative : Bool)
  /-- The outcome of an operation that has none. -/
  | undefined
deriving DecidableEq

namespace Floating

/-- The number of steps in one. -/
def unit : Nat :=
  1 <<< 1074

/-- The multiple of a grain that is nearest to a quotient, and the even one of two. -/
def nearestMultiple (grain num den : Nat) : Nat :=
  let width := den * grain
  let below := num / width
  let rest := num % width
  if 2 * rest < width ∨ (2 * rest = width ∧ below % 2 = 0) then below * grain
  else (below + 1) * grain

/-- The nearest multiple is off by half a grain at most. -/
theorem nearestMultiple_error {grain num den : Nat} (h : 0 < den * grain) :
    2 * ((num : Int) - den * nearestMultiple grain num den).natAbs ≤ den * grain := by
  have whole := Nat.div_add_mod num (den * grain)
  have small := Nat.mod_lt num h
  have times (k : Nat) : (den : Int) * (k * grain : Nat) = (den * grain * k : Nat) := by
    rw [← Int.natCast_mul, Nat.mul_comm k, Nat.mul_assoc]
  unfold nearestMultiple
  dsimp only
  generalize num / (den * grain) = below at *
  generalize num % (den * grain) = rest at *
  have next : den * grain * (below + 1) = den * grain * below + den * grain := Nat.mul_succ _ _
  split <;> rw [times] <;> omega

/-- A quotient, rounded to 53 bits. -/
def round (num den : Nat) : Nat :=
  nearestMultiple (1 <<< ((num / den).log2 - 52)) num den

/-- A number of 53 bits stays as it is. -/
theorem round_of_lt {n : Nat} (h : n.log2 ≤ 52) : round n 1 = n := by
  have grain : 1 <<< (n.log2 - 52) = 1 := by
    rw [Nat.sub_eq_zero_of_le h]
    rfl
  simp [round, nearestMultiple, grain, Nat.mod_one]

/-- The number with the given count of steps. -/
def ofSteps (negative : Bool) (steps : Nat) : Floating :=
  if steps < 1 <<< 2098 then finite negative steps else infinite negative

/-- The number nearest to a quotient. -/
def ofRatio (negative : Bool) (num den : Nat) : Floating :=
  ofSteps negative (round (num * unit) den)

/-- The steps of a decimal number, that is of `digits` times the given power of ten. A power
that decides the outcome alone is not multiplied out. -/
def decimalSteps (digits : Nat) (scale : Int) : Nat :=
  if digits = 0 ∨ (digits.log2 : Int) + 1100 < 3 * -scale then 0
  else if 400 < scale then 1 <<< 2098
  else if scale < 0 then round (digits * unit) (Nat.pow 10 scale.natAbs)
  else round (digits * Nat.pow 10 scale.natAbs * unit) 1

/-- The number nearest to a decimal number. -/
def ofDecimal (negative : Bool) (digits : Nat) (scale : Int) : Floating :=
  ofSteps negative (decimalSteps digits scale)

/-- The steps of a number, with their direction. An infinite number counts for nothing here. -/
def signedSteps : Floating → Int
  | finite negative steps => if negative then -steps else steps
  | _ => 0

/-- Whether a number is below zero. -/
def isNegative : Floating → Bool
  | finite negative steps => negative && steps != 0
  | infinite negative => negative
  | undefined => false

/-- The largest integer that is no further from zero than a finite number. -/
def truncate (x : Floating) : Int :=
  x.signedSteps.tdiv unit

/-- The smallest integer that is no lower than a finite number. -/
def ceiling (x : Floating) : Int :=
  -(-x.signedSteps / unit)

theorem ceiling_bounds (x : Floating) :
    x.signedSteps ≤ x.ceiling * unit ∧ x.ceiling * unit < x.signedSteps + unit := by
  have positive : (0 : Int) < unit := by decide +kernel
  have whole := Int.emod_add_mul_ediv (-x.signedSteps) unit
  have low := Int.emod_nonneg (-x.signedSteps) (Int.ne_of_gt positive)
  have high := Int.emod_lt_of_pos (-x.signedSteps) positive
  rw [ceiling, Int.neg_mul, Int.mul_comm]
  omega

/-- The number that lies as far on the other side of zero. -/
def neg : Floating → Floating
  | finite negative steps => finite (!negative) steps
  | infinite negative => infinite (!negative)
  | undefined => undefined

/-- The integer that a number is equal to. -/
def whole? : Floating → Option Int
  | finite negative steps =>
    if steps % unit = 0 then some ((finite negative steps).signedSteps.tdiv unit) else none
  | _ => none

/-- The sum of two numbers. The sum of two negative zeros is one. -/
def add : Floating → Floating → Floating
  | finite s m, finite t n =>
    let sum := (finite s m).signedSteps + (finite t n).signedSteps
    ofSteps (if sum = 0 then s && t else sum < 0) (round sum.natAbs 1)
  | infinite s, infinite t => if s = t then infinite s else undefined
  | infinite s, finite _ _ => infinite s
  | finite _ _, infinite t => infinite t
  | undefined, _ | _, undefined => undefined

/-! ### Reading -/

/-- The integer behind the mark of an exponent. -/
def exponent? (text : List Char) : Option Int :=
  let (negative, digits) := match text with
    | '-' :: rest => (true, rest)
    | '+' :: rest => (false, rest)
    | rest => (false, rest)
  if digits.isEmpty ∨ !digits.all Text.isDigit then none
  else some (if negative then -(Text.ofDecimal digits : Int) else Text.ofDecimal digits)

/-- The number nearest to the one that a text writes in decimal digits, with an optional sign,
fraction and exponent. -/
def ofText? (text : List Char) : Option Floating :=
  let (negative, text) := match text with
    | '-' :: rest => (true, rest)
    | rest => (false, rest)
  let whole := text.takeWhile Text.isDigit
  let text := text.dropWhile Text.isDigit
  let (fraction, text) := match text with
    | '.' :: rest => (rest.takeWhile Text.isDigit, rest.dropWhile Text.isDigit)
    | rest => ([], rest)
  let exponent := match text with
    | [] => some 0
    | 'e' :: rest | 'E' :: rest => exponent? rest
    | _ => none
  match whole, exponent with
  | [], _ | _, none => none
  | _, some exponent =>
    some (ofDecimal negative (Text.ofDecimal (whole ++ fraction)) (exponent - fraction.length))

end Floating

end HashConditions
