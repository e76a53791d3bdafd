import HashConditions.Text.Numeral
import Mathlib.Algebra.Group.Nat.Defs
import Mathlib.Data.List.Induction

/-!
# Decimal numbers are read back

A number is written digit by digit from the last one, and reading takes the digits in from the
first one. What is written is canonical: a zero comes first only if it is the number zero.

## Main results

* `Text.ofDecimal_decimal` — reading undoes writing
* `Text.canonicalDigits_iff` — what is written is canonical, and nothing else is
* `Text.length_decimal_le` — how many digits a number has at most
-/

namespace HashConditions

namespace Text

variable {n : Nat}

/-! ### Digits -/

theorem toNat_digit (h : n < 10) : (digit n).toNat - 48 = n := by
  have check : ∀ n < 10, (digit n).toNat - 48 = n := by
    decide
  exact check n h

theorem eq_zero_of_digit_eq (h : n < 10) (zero : digit n = '0') : n = 0 := by
  rw [← toNat_digit h, zero]
  rfl

/-- What holds for the digits among the first 58 characters holds for all digits. -/
theorem forall_of_isDigit {p : Char → Prop}
    (check : ∀ n < 58, isDigit (Char.ofNat n) = true → p (Char.ofNat n)) {c : Char}
    (h : isDigit c = true) : p c := by
  have below : c.toNat < 58 := by
    rw [isDigit, Bool.and_eq_true, decide_eq_true_eq, decide_eq_true_eq] at h
    exact Nat.lt_succ_of_le (UInt32.le_iff_toNat_le.mp h.2)
  have found := check c.toNat below
  rw [Char.ofNat_toNat] at found
  exact found h

theorem digit_of_isDigit {c : Char} (h : isDigit c = true) :
    digit (c.toNat - 48) = c ∧ c.toNat - 48 < 10 :=
  forall_of_isDigit (p := fun c => digit (c.toNat - 48) = c ∧ c.toNat - 48 < 10) (by decide) h

/-! ### Numbers -/

theorem decimal_of_lt (h : n < 10) : decimal n = [digit n] := by
  rw [decimal, if_pos h]

theorem decimal_of_ge (h : ¬n < 10) : decimal n = decimal (n / 10) ++ [digit (n % 10)] := by
  rw [decimal, if_neg h]

theorem ofDecimal_append_singleton (digits : List Char) (c : Char) :
    ofDecimal (digits ++ [c]) = ofDecimal digits * 10 + (c.toNat - 48) := by
  rw [ofDecimal, List.foldl_append]
  rfl

/-- **Reading undoes writing.** -/
theorem ofDecimal_decimal (n : Nat) : ofDecimal (decimal n) = n := by
  induction n using decimal.induct with
  | case1 n small =>
    rw [decimal_of_lt small, ← List.nil_append [digit n], ofDecimal_append_singleton,
      toNat_digit small]
    exact Nat.zero_add n
  | case2 n large ih =>
    rw [decimal_of_ge large, ofDecimal_append_singleton, ih,
      toNat_digit (Nat.mod_lt n (Nat.succ_pos 9))]
    omega

/-- What holds for the ten digits holds in every number that is written. -/
theorem forall_mem_decimal {p : Char → Prop} (check : ∀ n < 10, p (digit n)) (n : Nat) :
    ∀ c ∈ decimal n, p c := by
  intro c h
  induction n using decimal.induct with
  | case1 n small =>
    rw [decimal_of_lt small, List.mem_singleton] at h
    rw [h]
    exact check n small
  | case2 n large ih =>
    rw [decimal_of_ge large, List.mem_append, List.mem_singleton] at h
    rcases h with front | rfl
    · exact ih front
    · exact check (n % 10) (Nat.mod_lt n (Nat.succ_pos 9))

/-- The first digit is a zero only for the number zero. -/
theorem exists_decimal_eq_cons (n : Nat) :
    ∃ c rest, decimal n = c :: rest ∧ (c = '0' → n = 0) := by
  induction n using decimal.induct with
  | case1 n small =>
    exact ⟨digit n, [], decimal_of_lt small, eq_zero_of_digit_eq small⟩
  | case2 n large ih =>
    obtain ⟨c, rest, front, zero⟩ := ih
    refine ⟨c, rest ++ [digit (n % 10)], ?_, ?_⟩
    · rw [decimal_of_ge large, front, List.cons_append]
    · intro h
      have none := zero h
      omega

/-- What is written is canonical. -/
theorem canonicalDigits_decimal (n : Nat) : canonicalDigits (decimal n) = true := by
  by_cases zero : n = 0
  · subst zero
    rw [decimal_of_lt (Nat.succ_pos 9)]
    rfl
  · obtain ⟨c, rest, digits, first⟩ := exists_decimal_eq_cons n
    have all : (c :: rest).all isDigit = true := by
      rw [← digits, List.all_eq_true]
      exact forall_mem_decimal (p := fun c => isDigit c = true) (by decide) n
    have other : ∀ rest', c :: rest ≠ '0' :: rest' :=
      fun rest' h => zero (first (List.cons.inj h).1)
    rw [digits, canonicalDigits]
    · exact all
    · exact List.cons_ne_nil c rest
    · exact other

/-- Digits are those of the number that they spell, unless a zero comes first. -/
theorem decimal_ofDecimal_cons {c : Char} {rest : List Char} (first : c ≠ '0')
    (digits : ∀ d ∈ c :: rest, isDigit d = true) : decimal (ofDecimal (c :: rest)) = c :: rest := by
  induction rest using List.reverseRecOn with
  | nil =>
    obtain ⟨same, small⟩ := digit_of_isDigit (digits c List.mem_cons_self)
    have value : ofDecimal [c] = c.toNat - 48 := by
      rw [← List.nil_append [c], ofDecimal_append_singleton]
      exact Nat.zero_add _
    rw [value, decimal_of_lt small, same]
  | append_singleton rest d ih =>
    have front := ih fun e he => digits e (List.mem_append_left [d] he)
    obtain ⟨same, small⟩ :=
      digit_of_isDigit (digits d (List.mem_append_right (c :: rest) List.mem_cons_self))
    have some : ofDecimal (c :: rest) ≠ 0 := by
      intro none
      rw [none, decimal_of_lt (Nat.succ_pos 9)] at front
      exact first (List.cons.inj front).1.symm
    have large : ¬ofDecimal (c :: rest) * 10 + (d.toNat - 48) < 10 := by omega
    have quotient : (ofDecimal (c :: rest) * 10 + (d.toNat - 48)) / 10 = ofDecimal (c :: rest) := by
      omega
    have remainder : (ofDecimal (c :: rest) * 10 + (d.toNat - 48)) % 10 = d.toNat - 48 := by
      omega
    rw [← List.cons_append, ofDecimal_append_singleton, decimal_of_ge large, quotient, remainder,
      front, same]

/-- **Canonical digits are exactly what is written for numbers.** -/
theorem canonicalDigits_iff {digits : List Char} :
    canonicalDigits digits = true ↔ decimal (ofDecimal digits) = digits := by
  constructor
  · intro canonical
    rw [canonicalDigits.eq_def] at canonical
    split at canonical
    · cases canonical
    · next rest =>
      obtain rfl := List.isEmpty_iff.mp canonical
      exact decimal_of_lt (Nat.succ_pos 9)
    · next some other =>
      obtain ⟨c, rest, rfl⟩ := List.exists_cons_of_ne_nil some
      exact decimal_ofDecimal_cons (fun zero => other rest (congrArg (· :: rest) zero))
        (List.all_eq_true.mp canonical)
  · intro same
    rw [← same]
    exact canonicalDigits_decimal _

/-- A number below a power of ten has no more digits than the exponent says. -/
theorem length_decimal_le {k : Nat} (h : n < 10 ^ (k + 1)) : (decimal n).length ≤ k + 1 := by
  induction k generalizing n with
  | zero =>
    rw [decimal_of_lt h]
    exact Nat.le_refl 1
  | succ k ih =>
    by_cases small : n < 10
    · rw [decimal_of_lt small]
      exact Nat.succ_le_succ (Nat.zero_le _)
    · rw [Nat.pow_succ] at h
      rw [decimal_of_ge small, List.length_append]
      exact Nat.succ_le_succ (ih (Nat.div_lt_of_lt_mul (Nat.mul_comm _ _ ▸ h)))

end Text

end HashConditions
