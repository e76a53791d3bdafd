import HashConditions.Number.Floating

/-!
# The shortest text of a floating-point number

A number is written with the fewest decimal digits that read back as the same number. With `count`
digits the candidates are the two neighbours of the number among the decimal numbers with that
many digits; if both read back the nearer one is written, and of two that are equally near the
one with an even last digit. Seventeen digits are always enough.

The digits are written around a point, at least one on either side, if the first of them stands
for less than `10 ^ 16` and for no less than `10 ^ -4`; otherwise behind a single digit and with
an exponent of at least two digits.
-/

namespace HashConditions

namespace Floating

/-- A quotient times a power of ten. -/
def timesTen (num den : Nat) (power : Int) : Nat × Nat :=
  if power < 0 then (num, den * Nat.pow 10 power.natAbs) else (num * Nat.pow 10 power.natAbs, den)

/-- The power of ten that is above a positive quotient, and no more than ten times as large. The
logarithm of two is near 0.30103, so it is one of three. -/
def magnitude (num den : Nat) : Int :=
  let least := ((num.log2 : Int) - den.log2 - 1) * 30103 / 100000
  let isAbove (power : Int) : Bool :=
    let (n, d) := timesTen num den (-power)
    n < d
  if isAbove least then least else if isAbove (least + 1) then least + 1 else least + 2

/-- The digits, as a number, that read back as the given number of steps, whose magnitude is
given too. -/
def digits? (steps : Nat) (magnitude : Int) (count : Nat) : Option Nat :=
  let scale := magnitude - count
  let (n, d) := timesTen steps unit (-scale)
  let below := n / d
  let rest := n % d
  let reads (digits : Nat) : Bool := decimalSteps digits scale == steps
  let nearer : Bool := 2 * rest < d || (2 * rest == d && below % 2 == 0)
  if reads below && (nearer || !reads (below + 1)) then some below
  else if reads (below + 1) then some (below + 1)
  else none

/-- What is written reads back. -/
theorem decimalSteps_of_digits? {steps count digits : Nat} {magnitude : Int}
    (h : digits? steps magnitude count = some digits) :
    decimalSteps digits (magnitude - count) = steps := by
  unfold digits? at h
  grind

/-- A decimal number: its digits, and the power of ten that the last digit stands for. -/
structure Digits where
  digits : Nat
  scale : Int

/-- The decimal number with the fewest digits that reads back as the given number of steps. -/
def shortest (steps : Nat) : Digits :=
  let above := magnitude steps unit
  let found := (List.range 17).findSome? fun i =>
    (digits? steps above (i + 1)).map fun digits => ⟨digits, above - (i + 1)⟩
  found.getD ⟨0, 0⟩

/-- The text of an exponent. -/
def exponentText (exponent : Int) : List Char :=
  let digits := Text.decimal exponent.natAbs
  'e' :: (if exponent < 0 then '-' else '+') :: (List.replicate (2 - digits.length) '0' ++ digits)

/-- The text of digits in front of which there is a point, moved by the given number of places. -/
def layOut (digits : List Char) (point : Int) : List Char :=
  if -4 < point ∧ point ≤ 16 then
    let left := digits.take point.toNat ++ List.replicate (point.toNat - digits.length) '0'
    let right := List.replicate (-point).toNat '0' ++ digits.drop point.toNat
    (if left.isEmpty then ['0'] else left) ++ '.' :: (if right.isEmpty then ['0'] else right)
  else
    let more := digits.drop 1
    digits.take 1 ++ (if more.isEmpty then [] else '.' :: more) ++ exponentText (point - 1)

/-- The text of a magnitude in steps. -/
def magnitudeText (steps : Nat) : List Char :=
  if steps = 0 then ['0', '.', '0']
  else
    let found := shortest steps
    let digits := Text.decimal found.digits
    let kept := (digits.reverse.dropWhile (· == '0')).reverse
    layOut kept (digits.length + found.scale)

/-- The text of a number. -/
def text : Floating → List Char
  | finite negative steps => if negative then '-' :: magnitudeText steps else magnitudeText steps
  | infinite negative => if negative then ['-', 'i', 'n', 'f'] else ['i', 'n', 'f']
  | undefined => ['n', 'a', 'n']

/-! ### The two forms at their limits -/

example : (ofDecimal false 1 15).text = "1000000000000000.0".toList := by decide +kernel
example : (ofDecimal false 1 16).text = "1e+16".toList := by decide +kernel
example : (ofDecimal true 1 (-4)).text = "-0.0001".toList := by decide +kernel
example : (ofDecimal false 1 (-7)).text = "1e-07".toList := by decide +kernel
example : (ofDecimal false 5 (-324)).text = "5e-324".toList := by decide +kernel
example : (ofDecimal true 0 0).text = "-0.0".toList := by decide +kernel

/-- Two tenths more than one tenth is not the number nearest to three tenths. -/
example : ((ofDecimal false 1 (-1)).add (ofDecimal false 2 (-1))).text =
    "0.30000000000000004".toList := by
  decide +kernel

end Floating

end HashConditions
