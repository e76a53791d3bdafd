/-!
# Hexadecimal digits

An octet is written as two digits, with capital letters; a digit is read in either case. Small
letters are for the numbers of characters.
-/

namespace HashConditions

namespace Text

/-- The digit for a number below sixteen. -/
def hexDigit (n : Nat) : Char :=
  Char.ofNat (if n < 10 then 48 + n else 55 + n)

/-- The two digits of an octet. -/
def hexPair (b : UInt8) : List Char :=
  [hexDigit (b.toNat / 16), hexDigit (b.toNat % 16)]

/-- The digits of an integer behind its sign, two characters at least. -/
def hexInteger : Int → List Char
  | .ofNat n =>
    if n < 256 then hexPair (UInt8.ofNat n) else (Nat.toDigits 16 n).map Char.toUpper
  | .negSucc n => '-' :: (Nat.toDigits 16 (n + 1)).map Char.toUpper

/-- The small digit for a number below sixteen. -/
def lowerDigit (n : Nat) : Char :=
  Char.ofNat (if n < 10 then 48 + n else 87 + n)

/-- The last digits of a number, as many as asked for. -/
def lowerDigits : Nat → Nat → List Char
  | 0, _ => []
  | width + 1, n => lowerDigits width (n / 16) ++ [lowerDigit (n % 16)]

/-- The number that a digit stands for. -/
def hexValue? (c : Char) : Option Nat :=
  if '0' ≤ c ∧ c ≤ '9' then some (c.toNat - 48)
  else if 'A' ≤ c ∧ c ≤ 'F' then some (c.toNat - 55)
  else if 'a' ≤ c ∧ c ≤ 'f' then some (c.toNat - 87)
  else none

/-- Whether a character is a hexadecimal digit. -/
def isHexDigit (c : Char) : Bool :=
  (hexValue? c).isSome

theorem hexValue?_hexDigit {n : Nat} (h : n < 16) : hexValue? (hexDigit n) = some n := by
  have all : ∀ k ∈ List.range 16, hexValue? (hexDigit k) = some k := by decide
  exact all n (List.mem_range.2 h)

end Text

end HashConditions
