import HashConditions.Bytes.Lemmas

/-!
# Bits of numbers and of octets

A number of a given width is a list of bits, most significant first, and a list of such numbers is
the list of all their bits. The same bits can be cut in more than one way: a number of so many
bits is one of fewer bits with the rest behind it. If the width is known, the bits determine the
numbers, and that is still so if fewer bits than make up a number stand behind them.

## Main results

* `Bits.ofNat_append_ofNat` — the bits of two numbers, cut elsewhere
* `Bits.concat_append_inj` — bits determine numbers and what is left over
-/

namespace HashConditions

namespace Bits

variable {a b width : Nat} {ns ms : List Nat} {s t : List Bool}

/-- The lowest bits of a number, most significant first. -/
def ofNat : Nat → Nat → List Bool
  | 0, _ => []
  | width + 1, n => n.testBit width :: ofNat width n

@[simp] theorem length_ofNat (width n : Nat) : (ofNat width n).length = width := by
  induction width with
  | zero => rfl
  | succ width ih => rw [ofNat, List.length_cons, ih]

/-- A number of `width + v` bits is its upper part and its lower part. -/
theorem ofNat_add (width v n : Nat) :
    ofNat (width + v) n = ofNat width (n / 2 ^ v) ++ ofNat v n := by
  induction width with
  | zero => rw [Nat.zero_add, ofNat, List.nil_append]
  | succ width ih =>
    rw [Nat.succ_add, ofNat, ofNat, ih, Nat.testBit_div_two_pow, List.cons_append]

theorem ofNat_mod (width n : Nat) : ofNat width (n % 2 ^ width) = ofNat width n := by
  have lower : ∀ v ≤ width, ofNat v (n % 2 ^ width) = ofNat v n := by
    intro v
    induction v with
    | zero => exact fun _ => rfl
    | succ v ih =>
      intro le
      rw [ofNat, ofNat, ih (Nat.le_of_lt le), Nat.testBit_mod_two_pow,
        decide_eq_true (Nat.lt_of_succ_le le), Bool.true_and]
  exact lower width (Nat.le_refl _)

theorem ofNat_append (width v a : Nat) (h : b < 2 ^ v) :
    ofNat width a ++ ofNat v b = ofNat (width + v) (a * 2 ^ v + b) := by
  have upper : (a * 2 ^ v + b) / 2 ^ v = a := by
    rw [Nat.mul_comm, Nat.mul_add_div (Nat.two_pow_pos v), Nat.div_eq_of_lt h, Nat.add_zero]
  have lower : ofNat v (a * 2 ^ v + b) = ofNat v b := by
    rw [← ofNat_mod, Nat.mul_comm, Nat.mul_add_mod, ofNat_mod]
  rw [ofNat_add, upper, lower]

/-- A number is made of the bits of two, whatever lies above those of the first. -/
theorem ofNat_mod_mul_add (width v a : Nat) (h : b < 2 ^ v) :
    ofNat (width + v) (a % 2 ^ width * 2 ^ v + b) = ofNat width a ++ ofNat v b := by
  rw [← ofNat_append width v _ h, ofNat_mod]

/-- Of the bits of two numbers, the upper ones of the second can be counted with the first. -/
theorem ofNat_append_ofNat (width v u a : Nat) (h : b < 2 ^ (v + u)) :
    ofNat width a ++ ofNat (v + u) b =
      ofNat (width + v) (a * 2 ^ v + b / 2 ^ u) ++ ofNat u b := by
  have upper : b / 2 ^ u < 2 ^ v := by
    rw [Nat.div_lt_iff_lt_mul (Nat.two_pow_pos u), ← Nat.pow_add]
    exact h
  rw [ofNat_add v u, ← List.append_assoc, ofNat_append width v a upper]

theorem ofNat_zero (width : Nat) : ofNat width 0 = List.replicate width false := by
  induction width with
  | zero => rfl
  | succ width ih => rw [ofNat, ih, Nat.zero_testBit, List.replicate_succ]

theorem eq_of_ofNat_eq (ha : a < 2 ^ width) (hb : b < 2 ^ width)
    (h : ofNat width a = ofNat width b) : a = b := by
  have agree : ∀ v, ofNat v a = ofNat v b → ∀ i < v, a.testBit i = b.testBit i := by
    intro v
    induction v with
    | zero => exact fun _ i hi => absurd hi (Nat.not_lt_zero i)
    | succ v ih =>
      intro same i hi
      obtain ⟨top, rest⟩ := List.cons.inj same
      obtain below | rfl := Nat.lt_succ_iff_lt_or_eq.mp hi
      · exact ih rest i below
      · exact top
  refine Nat.eq_of_testBit_eq fun i => ?_
  by_cases hi : i < width
  · exact agree width h i hi
  · have le : 2 ^ width ≤ 2 ^ i := Nat.pow_le_pow_right Nat.zero_lt_two (Nat.not_lt.mp hi)
    rw [Nat.testBit_lt_two_pow (Nat.lt_of_lt_of_le ha le),
      Nat.testBit_lt_two_pow (Nat.lt_of_lt_of_le hb le)]

theorem ofNat_eq_zeros_iff (h : a < 2 ^ width) :
    (∃ k, ofNat width a = List.replicate k false) ↔ a = 0 := by
  constructor
  · rintro ⟨k, zeros⟩
    have length := congrArg List.length zeros
    rw [length_ofNat, List.length_replicate] at length
    rw [← length, ← ofNat_zero] at zeros
    exact eq_of_ofNat_eq h (Nat.two_pow_pos width) zeros
  · rintro rfl
    exact ⟨width, ofNat_zero width⟩

/-! ### Lists of numbers -/

/-- The bits of numbers of one width. -/
def concat (width : Nat) (ns : List Nat) : List Bool :=
  ns.flatMap (ofNat width)

@[simp] theorem concat_nil (width : Nat) : concat width [] = [] := rfl

@[simp] theorem concat_cons (width n : Nat) (ns : List Nat) :
    concat width (n :: ns) = ofNat width n ++ concat width ns :=
  List.flatMap_cons

@[simp] theorem concat_append (width : Nat) (ns ms : List Nat) :
    concat width (ns ++ ms) = concat width ns ++ concat width ms :=
  List.flatMap_append

@[simp] theorem length_concat (width : Nat) (ns : List Nat) :
    (concat width ns).length = width * ns.length := by
  induction ns with
  | nil => rfl
  | cons n ns ih =>
    rw [concat_cons, List.length_append, length_ofNat, ih, List.length_cons, Nat.mul_succ,
      Nat.add_comm]

theorem concat_inj (hn : ∀ n ∈ ns, n < 2 ^ width) (hm : ∀ m ∈ ms, m < 2 ^ width)
    (length : ns.length = ms.length) (h : concat width ns = concat width ms) : ns = ms := by
  induction ns generalizing ms with
  | nil => exact (List.length_eq_zero_iff.mp length.symm).symm
  | cons n ns ih =>
    cases ms with
    | nil => exact absurd length (Nat.succ_ne_zero _)
    | cons m ms =>
      rw [List.forall_mem_cons] at hn hm
      rw [concat_cons, concat_cons] at h
      obtain ⟨first, rest⟩ := List.append_inj h (by rw [length_ofNat, length_ofNat])
      rw [eq_of_ofNat_eq hn.1 hm.1 first, ih hn.2 hm.2 (Nat.succ.inj length) rest]

/-- Bits determine the numbers that they are cut into, and what is left over if that is less than a
number. -/
theorem concat_append_inj (hn : ∀ n ∈ ns, n < 2 ^ width) (hm : ∀ m ∈ ms, m < 2 ^ width)
    (hs : s.length < width) (ht : t.length < width)
    (h : concat width ns ++ s = concat width ms ++ t) : ns = ms ∧ s = t := by
  have total := congrArg List.length h
  rw [List.length_append, List.length_append, length_concat, length_concat] at total
  have many : ∀ k r, r < width → (width * k + r) / width = k := fun k r hr => by
    rw [Nat.mul_add_div (Nat.zero_lt_of_lt hr), Nat.div_eq_of_lt hr, Nat.add_zero]
  have length : ns.length = ms.length := by
    rw [← many ns.length s.length hs, total, many ms.length t.length ht]
  obtain ⟨numbers, rest⟩ := List.append_inj h (by rw [length_concat, length_concat, length])
  exact ⟨concat_inj hn hm length numbers, rest⟩

end Bits

/-- The bits of an octet string. -/
def Bytes.bits (bs : Bytes) : List Bool :=
  Bits.concat 8 (bs.map UInt8.toNat)

namespace Bytes

variable {as bs : Bytes} {s t : List Bool}

@[simp] theorem bits_nil : bits [] = [] := rfl

@[simp] theorem bits_cons (b : UInt8) (bs : Bytes) :
    bits (b :: bs) = Bits.ofNat 8 b.toNat ++ bits bs := by
  rw [bits, bits, List.map_cons, Bits.concat_cons]

@[simp] theorem bits_append (as bs : Bytes) : bits (as ++ bs) = bits as ++ bits bs := by
  rw [bits, bits, bits, List.map_append, Bits.concat_append]

@[simp] theorem length_bits (bs : Bytes) : (bits bs).length = 8 * bs.length := by
  rw [bits, Bits.length_concat, List.length_map]

/-- An octet has the lowest bits of the number it is made of. -/
theorem bits_singleton_ofNat (n : Nat) : bits [UInt8.ofNat n] = Bits.ofNat 8 n := by
  rw [bits_cons, bits_nil, List.append_nil, UInt8.toNat_ofNat', Bits.ofNat_mod]

/-- Bits determine the octets, and what is left over if that is less than an octet. -/
theorem bits_append_inj (hs : s.length < 8) (ht : t.length < 8)
    (h : bits as ++ s = bits bs ++ t) : as = bs ∧ s = t := by
  have small : ∀ cs : Bytes, ∀ n ∈ cs.map UInt8.toNat, n < 2 ^ 8 := by
    intro cs n hn
    obtain ⟨c, -, rfl⟩ := List.mem_map.mp hn
    exact c.toNat_lt
  obtain ⟨octets, rest⟩ := Bits.concat_append_inj (small as) (small bs) hs ht h
  exact ⟨(List.map_inj_right fun _ _ => UInt8.toNat_inj.mp).mp octets, rest⟩

end Bytes

end HashConditions
