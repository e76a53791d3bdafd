/-!
# Octet strings

An octet string is a list of octets, so every codec of the library is a function on lists and
its laws are laws about lists. This module reads and writes numbers in base 256, most
significant octet first, and counts the bits and octets a number needs.

The laws that need powers are in `HashConditions.Bytes.Lemmas`.
-/

namespace HashConditions

/-- A string of octets. -/
abbrev Bytes := List UInt8

/-- The number of binary digits of `n`; zero has none. -/
def bitLength (n : Nat) : Nat :=
  if n = 0 then 0 else n.log2 + 1

@[simp] theorem bitLength_zero : bitLength 0 = 0 := rfl

/-- The number of base 256 digits of `n`; zero has none. -/
def octetLength (n : Nat) : Nat :=
  (bitLength n + 7) / 8

namespace Bytes

/-- The number that the octets spell in base 256, most significant octet first. -/
def toNat (bs : Bytes) : Nat :=
  bs.foldl (fun n b => n * 256 + b.toNat) 0

/-- Puts the `width` lowest base 256 digits of `n` in front of `tail`. -/
def ofNatAppend : Nat → Nat → Bytes → Bytes
  | 0, _, tail => tail
  | width + 1, n, tail => ofNatAppend width (n / 256) (UInt8.ofNat n :: tail)

/-- The `width` lowest base 256 digits of `n`, most significant digit first. -/
def ofNat (width n : Nat) : Bytes :=
  ofNatAppend width n []

@[simp] theorem toNat_nil : toNat [] = 0 := rfl

/-! ### Digit by digit -/

theorem ofNatAppend_eq (width n : Nat) (tail : Bytes) :
    ofNatAppend width n tail = ofNat width n ++ tail := by
  induction width generalizing n tail with
  | zero => rfl
  | succ width ih =>
    rw [ofNat, ofNatAppend, ofNatAppend, ih, ih _ [_]]
    simp

/-- The last octet written is the lowest digit. -/
theorem ofNat_succ (width n : Nat) :
    ofNat (width + 1) n = ofNat width (n / 256) ++ [UInt8.ofNat n] := by
  rw [ofNat, ofNatAppend, ofNatAppend_eq]

@[simp] theorem ofNat_zero (n : Nat) : ofNat 0 n = [] := rfl

@[simp] theorem length_ofNat (width n : Nat) : (ofNat width n).length = width := by
  induction width generalizing n with
  | zero => rfl
  | succ width ih => simp [ofNat_succ, ih]

end Bytes

end HashConditions
