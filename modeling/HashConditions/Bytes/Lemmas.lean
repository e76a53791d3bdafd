import HashConditions.Bytes.Basic
import Mathlib.Algebra.Group.Nat.Defs

/-!
# Numbers in base 256

The two directions of `HashConditions.Bytes.Basic` are inverse to one another once the width is
fixed, and the counts of digits are exact.

## Main results

* `Bytes.toNat_ofNat` — what survives writing
* `Bytes.ofNat_toNat` — reading loses nothing
* `bitLength_le_iff`, `octetLength_le_iff` — the least numbers of bits and octets that hold `n`
* `Bytes.toNat_cons_lt_half_iff` — when the top bit is clear
-/

namespace HashConditions

namespace Bytes

/-! ### Reading -/

theorem foldl_digits (bs : Bytes) (n : Nat) :
    bs.foldl (fun n b => n * 256 + b.toNat) n = n * 256 ^ bs.length + toNat bs := by
  induction bs generalizing n with
  | nil => simp [toNat]
  | cons b bs ih =>
    have step : toNat (b :: bs) = (0 * 256 + b.toNat) * 256 ^ bs.length + toNat bs := ih _
    rw [List.foldl_cons, ih, step, List.length_cons, Nat.pow_succ, Nat.add_mul, Nat.mul_assoc,
      Nat.mul_comm 256, Nat.zero_mul, Nat.zero_add, Nat.add_assoc]

@[simp] theorem toNat_cons (b : UInt8) (bs : Bytes) :
    toNat (b :: bs) = b.toNat * 256 ^ bs.length + toNat bs := by
  rw [toNat, List.foldl_cons, foldl_digits]
  simp

@[simp] theorem toNat_append (as bs : Bytes) :
    toNat (as ++ bs) = toNat as * 256 ^ bs.length + toNat bs := by
  rw [toNat, List.foldl_append, foldl_digits]
  rfl

/-- A string of `k` octets spells a number below `256 ^ k`. -/
theorem toNat_lt (bs : Bytes) : toNat bs < 256 ^ bs.length := by
  induction bs with
  | nil => simp
  | cons b bs ih =>
    have hb : b.toNat ≤ 255 := Nat.le_of_lt_succ b.toNat_lt
    rw [toNat_cons, List.length_cons, Nat.pow_succ]
    have := Nat.mul_le_mul_right (256 ^ bs.length) hb
    omega

/-! ### Writing -/

/-- Writing keeps a number up to the multiples of `256 ^ width`. -/
@[simp] theorem toNat_ofNat (width n : Nat) : toNat (ofNat width n) = n % 256 ^ width := by
  induction width generalizing n with
  | zero => simp [Nat.mod_one]
  | succ width ih =>
    rw [ofNat_succ, toNat_append, ih, Nat.pow_succ, Nat.mul_comm _ 256, Nat.mod_mul]
    simp
    omega

theorem toNat_ofNat_of_lt {width n : Nat} (h : n < 256 ^ width) : toNat (ofNat width n) = n := by
  rw [toNat_ofNat, Nat.mod_eq_of_lt h]

/-- Reading loses nothing: the number and the width give the string back. -/
@[simp] theorem ofNat_toNat (bs : Bytes) : ofNat bs.length (toNat bs) = bs := by
  suffices h : ∀ rs : Bytes, ofNat rs.length (toNat rs.reverse) = rs.reverse by
    simpa using h bs.reverse
  intro rs
  induction rs with
  | nil => rfl
  | cons b rs ih =>
    rw [List.length_cons, ofNat_succ, List.reverse_cons, toNat_append]
    have hb : b.toNat < 256 := b.toNat_lt
    have hdiv : (toNat rs.reverse * 256 ^ 1 + toNat [b]) / 256 = toNat rs.reverse := by
      simp; omega
    have hmod : UInt8.ofNat (toNat rs.reverse * 256 ^ 1 + toNat [b]) = b := by
      apply UInt8.toNat_inj.1
      simp
    simp only [List.length_singleton]
    rw [hdiv, hmod, ih]

/-- Strings of one length that spell the same number are equal. -/
theorem eq_of_toNat_eq {as bs : Bytes} (hl : as.length = bs.length)
    (h : toNat as = toNat bs) : as = bs := by
  rw [← ofNat_toNat as, ← ofNat_toNat bs, hl, h]

end Bytes

/-! ### Counting digits -/

theorem lt_two_pow_bitLength (n : Nat) : n < 2 ^ bitLength n := by
  rw [bitLength]
  split
  · subst_vars; decide
  · exact Nat.lt_log2_self

/-- The bit length is the least number of bits that holds `n`. -/
theorem bitLength_le_iff {n k : Nat} : bitLength n ≤ k ↔ n < 2 ^ k := by
  constructor
  · intro h
    exact Nat.lt_of_lt_of_le (lt_two_pow_bitLength n) (Nat.pow_le_pow_right (by decide) h)
  · intro h
    rw [bitLength]
    split
    · exact Nat.zero_le _
    · next hn => exact (Nat.log2_lt hn).2 h

theorem lt_bitLength_iff {n k : Nat} : k < bitLength n ↔ 2 ^ k ≤ n := by
  rw [← Nat.not_le, bitLength_le_iff, Nat.not_lt]

theorem pow_256_eq (k : Nat) : 256 ^ k = 2 ^ (8 * k) := by
  rw [Nat.pow_mul]

/-- The octet length is the least number of octets that holds `n`. -/
theorem octetLength_le_iff {n k : Nat} : octetLength n ≤ k ↔ n < 256 ^ k := by
  rw [pow_256_eq, ← bitLength_le_iff, octetLength]
  omega

theorem lt_octetLength_iff {n k : Nat} : k < octetLength n ↔ 256 ^ k ≤ n := by
  rw [← Nat.not_le, octetLength_le_iff, Nat.not_lt]

theorem lt_pow_octetLength (n : Nat) : n < 256 ^ octetLength n :=
  octetLength_le_iff.1 (Nat.le_refl _)

namespace Bytes

/-- The first octet is below `k` if the number is below `k` times the weight of that octet. -/
theorem toNat_cons_lt_iff (b : UInt8) (bs : Bytes) (k : Nat) :
    toNat (b :: bs) < k * 256 ^ bs.length ↔ b.toNat < k := by
  have h := toNat_lt bs
  rw [toNat_cons]
  constructor
  · intro hk
    exact Nat.lt_of_mul_lt_mul_right (Nat.lt_of_le_of_lt (Nat.le_add_right _ _) hk)
  · intro hk
    have := Nat.mul_le_mul_right (256 ^ bs.length) (Nat.succ_le_of_lt hk)
    rw [Nat.succ_mul] at this
    omega

/-- Octets that start with one that is not zero are as few as their number needs. -/
theorem octetLength_toNat_cons {b : UInt8} (bs : Bytes) (hb : b ≠ 0) :
    octetLength (toNat (b :: bs)) = bs.length + 1 := by
  apply Nat.le_antisymm (octetLength_le_iff.2 (toNat_lt (b :: bs)))
  rw [List.length_cons, Nat.succ_le_iff, lt_octetLength_iff]
  apply Nat.le_of_not_lt
  rw [← Nat.one_mul (256 ^ bs.length), toNat_cons_lt_iff]
  intro h
  exact hb (UInt8.toNat_inj.1 (Nat.lt_one_iff.1 h))

/-- The top bit is clear if the number needs one bit less than the octets have. -/
theorem toNat_cons_lt_half_iff (b : UInt8) (bs : Bytes) :
    b < 128 ↔ bitLength (toNat (b :: bs)) ≤ 8 * bs.length + 7 := by
  rw [bitLength_le_iff, Nat.pow_add, ← pow_256_eq, Nat.mul_comm, show 2 ^ 7 = 128 from rfl,
    toNat_cons_lt_iff, UInt8.lt_iff_toNat_lt]
  rfl

end Bytes

end HashConditions
