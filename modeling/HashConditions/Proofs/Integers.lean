import HashConditions.Der.Lemmas
import HashConditions.Der.Offer
import HashConditions.Proofs.Reading

/-!
# Integers in two's complement

The content of an integer is a string of octets in two's complement, so its top bit is a sign. An
integer that is not negative has many such strings, since zero octets in front change nothing. What
is written is the shortest one: the count of octets comes from the count of bits and leaves room for
the sign (`shortestForm_encodeInteger`).

Reading goes by the first two octets and does not count any bits. It accepts the shortest form and
nothing else because the two views agree at every multiple of eight bits, which is what
`decodeInteger_cons_eq_ok_iff` says. So there are only three things that can be wrong with a content
(`Unfit`), and a content with nothing wrong is the form of some integer.

## Main definitions

* `Bytes.toInt` — the integer that octets spell in two's complement
* `Der.ShortestForm` — the octets spell an integer, and no fewer do
* `Der.Unfit` — what is wrong with octets that are no form of an integer

## Main results

* `Der.shortestForm_iff` — what is written is the shortest form
* `Der.integers_correspond` — integers and their forms
-/

namespace HashConditions

/-- The integer that octets spell in two's complement. The top bit counts as negative. -/
def Bytes.toInt (bs : Bytes) : Int :=
  if bs.head?.any (128 ≤ ·) then (toNat bs : Int) - (256 ^ bs.length : Nat) else toNat bs

namespace Der

variable {n : Nat} {b : UInt8} {bs content : Bytes} {fault : Malformed.Fault}

/-! ### Two's complement -/

theorem toInt_of_lt (h : b < 128) : Bytes.toInt (b :: bs) = Bytes.toNat (b :: bs) := by
  rw [Bytes.toInt, if_neg]
  simpa using h

/-- Octets with the sign bit set spell a negative integer. -/
theorem toInt_neg (h : 128 ≤ b) : Bytes.toInt (b :: bs) < 0 := by
  have bound := Bytes.toNat_lt (b :: bs)
  rw [Bytes.toInt, if_pos]
  · omega
  · simpa using h

/-- The octets spell an integer in two's complement, and no fewer octets do. -/
structure ShortestForm (content : Bytes) (n : Int) : Prop where
  ne_nil : content ≠ []
  toInt_eq : content.toInt = n
  least : ∀ other : Bytes, other ≠ [] → other.toInt = n → content.length ≤ other.length

theorem length_encodeInteger (n : Nat) : (encodeInteger n).length = bitLength n / 8 + 1 :=
  Bytes.length_ofNat _ _

theorem toNat_encodeInteger (n : Nat) : Bytes.toNat (encodeInteger n) = n := by
  refine Bytes.toNat_ofNat_of_lt ?_
  rw [pow_256_eq, ← bitLength_le_iff]
  omega

/-- Octets that spell an integer that is not negative have the sign bit clear. -/
theorem exists_clear (some : content ≠ []) (h : content.toInt = n) :
    ∃ b bs, content = b :: bs ∧ b < 128 ∧ Bytes.toNat (b :: bs) = n := by
  obtain ⟨b, bs, rfl⟩ := List.exists_cons_of_ne_nil some
  by_cases sign : 128 ≤ b
  · have negative : Bytes.toInt (b :: bs) < 0 := toInt_neg sign
    omega
  · have clear : b < 128 := UInt8.not_le.mp sign
    rw [toInt_of_lt clear, Int.natCast_inj] at h
    exact ⟨b, bs, rfl, clear, h⟩

theorem shortestForm_encodeInteger (n : Nat) : ShortestForm (encodeInteger n) n where
  ne_nil := by
    rw [← List.length_pos_iff, length_encodeInteger]
    exact Nat.succ_pos _
  toInt_eq := by
    have length := length_encodeInteger n
    have value := toNat_encodeInteger n
    cases h : encodeInteger n with
    | nil =>
      rw [h] at length
      cases length
    | cons b bs =>
      rw [h] at length value
      rw [List.length_cons] at length
      have clear : b < 128 := (Bytes.toNat_cons_lt_half_iff b bs).mpr (by rw [value]; omega)
      rw [toInt_of_lt clear, value]
  least := by
    intro other some spelled
    obtain ⟨b, bs, rfl, clear, value⟩ := exists_clear some spelled
    have bits := (Bytes.toNat_cons_lt_half_iff b bs).mp clear
    rw [value] at bits
    rw [length_encodeInteger, List.length_cons]
    omega

/-- **What is written is the shortest form.** An integer that is not negative has only one. -/
theorem shortestForm_iff : ShortestForm content n ↔ content = encodeInteger n := by
  constructor
  · rintro ⟨some, spelled, least⟩
    obtain ⟨some', spelled', least'⟩ := shortestForm_encodeInteger n
    have length : content.length = (encodeInteger n).length :=
      Nat.le_antisymm (least _ some' spelled') (least' _ some spelled)
    obtain ⟨b, bs, rfl, -, value⟩ := exists_clear some spelled
    refine Bytes.eq_of_toNat_eq length ?_
    rw [value, toNat_encodeInteger]
  · rintro rfl
    exact shortestForm_encodeInteger n

/-! ### Octets that are no form of an integer -/

/-- What is wrong with octets: there are none, the sign bit is set, or a zero octet in front is not
needed to keep it clear. -/
inductive Unfit : Bytes → Malformed.Fault → Prop
  | empty : Unfit [] .emptyInteger
  | negative {first : UInt8} {rest : Bytes} (sign : 128 ≤ first) :
      Unfit (first :: rest) .negativeInteger
  | padded {second : UInt8} {rest : Bytes} (clear : second < 128) :
      Unfit (0 :: second :: rest) .paddedInteger

/-- The first two octets show what is wrong. -/
theorem decodeInteger_eq_error_iff :
    decodeInteger content = .error fault ↔ Unfit content fault := by
  constructor
  · intro h
    match content with
    | [] =>
      cases h
      exact .empty
    | first :: rest =>
      rw [decodeInteger] at h
      split at h
      · next sign =>
        cases h
        exact .negative sign
      · split at h
        · next redundant =>
          cases h
          obtain ⟨rfl, clear⟩ := redundant
          obtain ⟨second, head, clear⟩ := (Option.any_eq_true _ _).mp clear
          obtain ⟨rest, rfl⟩ := List.head?_eq_some_iff.mp head
          exact .padded (of_decide_eq_true clear)
        · cases h
  · intro h
    cases h with
    | empty => rfl
    | negative sign => rw [decodeInteger, if_pos sign]
    | padded clear =>
      rw [decodeInteger, if_neg (by decide), if_pos]
      simpa using clear

/-- Octets are the form of an integer, or something is wrong with them. -/
theorem exists_unfit_iff : (∃ fault, Unfit content fault) ↔ ∀ n, content ≠ encodeInteger n := by
  constructor
  · rintro ⟨fault, unfit⟩ n rfl
    have accepted : decodeInteger (encodeInteger n) = .ok n := decodeInteger_eq_ok_iff.mpr rfl
    rw [decodeInteger_eq_error_iff.mpr unfit] at accepted
    cases accepted
  · intro none
    obtain ⟨fault, refused⟩ | ⟨n, accepted⟩ := eq_error_or_ok (decodeInteger content)
    · exact ⟨fault, decodeInteger_eq_error_iff.mp refused⟩
    · exact absurd (decodeInteger_eq_ok_iff.mp accepted) (none n)

/-! ### Offered integers and contents -/

theorem offerInteger_natCast (n : Nat) : offerInteger (.integer n) = .ok (encodeInteger n) := by
  have nonneg : ¬(n : Int) < 0 := Int.not_lt.mpr (Int.natCast_nonneg n)
  have written : encodeInteger? n = .ok (encodeInteger n) := by
    rw [encodeInteger?, magnitude?, if_neg nonneg]
    rfl
  show (encodeInteger? n).mapError Failure.unrepresentable = .ok (encodeInteger n)
  rw [written]
  rfl

/-- Octets are read in the same way whatever holds them. -/
theorem offerContent_octets (holder : Holder) (content : Bytes) (field offset : Offered) :
    offerContent (.octets holder content) field offset =
      .ok ((decodeInteger content).mapError fun fault => { fault, field, offset }) := by
  cases content with
  | nil => rfl
  | cons first rest => rfl

/-- **Integers and their forms correspond one to one.** An integer that is not negative is written
as the shortest string of octets that spells it in two's complement, and is read back. Octets are
read as that integer if and only if they are that form of it. Others are refused, with the labels
that the caller gives: they are empty, have the sign bit set, or a zero octet in front that is not
needed. -/
theorem integers_correspond (n : Nat) (content : Bytes) (holder : Holder)
    (field offset : Offered) :
    offerInteger (.integer n) = .ok (encodeInteger n) ∧
      (ShortestForm content n ↔ content = encodeInteger n) ∧
      decodeInteger (encodeInteger n) = .ok n ∧
      (decodeInteger content = .ok n ↔ content = encodeInteger n) ∧
      (∀ fault, decodeInteger content = .error fault ↔ Unfit content fault) ∧
      ((∃ fault, Unfit content fault) ↔ ∀ m, content ≠ encodeInteger m) ∧
      offerContent (.octets holder content) field offset =
        .ok ((decodeInteger content).mapError fun fault => { fault, field, offset }) := by
  refine ⟨offerInteger_natCast n, shortestForm_iff, decodeInteger_eq_ok_iff.mpr rfl,
    decodeInteger_eq_ok_iff, ?_, exists_unfit_iff, offerContent_octets holder content field offset⟩
  intro fault
  exact decodeInteger_eq_error_iff

/-- A zero octet keeps the sign bit clear, so it is needed in front of 128 and not of 127. -/
example : decodeInteger [0, 128] = .ok 128 ∧ decodeInteger [0, 127] = .error .paddedInteger :=
  ⟨rfl, rfl⟩

end Der

end HashConditions
