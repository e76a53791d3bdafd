import HashConditions.Fulfillment.Offer
import HashConditions.Proofs.CostBound

/-!
# Which RSA keys are accepted

The check of a modulus looks at its bit length and at nothing else, and the bit length of a negative
number is that of its magnitude. So a negative modulus of the right size passes the check. It is
refused later, where its octets are wanted, and not as a value out of contract: a number below zero
has none.

The public exponent is checked before the modulus, and a wrong one is refused by showing it. A
number of more than 4300 digits cannot be shown, so that is what fails then.

Apart from these two cases a key is accepted or refused as a value out of contract. The cost of an
accepted key is small, so no other check can fail.

## Main definitions

* `SizedModulus` — the bit lengths that a modulus may have
* `Settles` — when a builder succeeds, and when it fails for want of a representation

## Main results

* `settles_offerModulus` — conditions and fulfillments
* `offerModulus_negative` — the smallest magnitude that only its sign keeps from being accepted
-/

namespace HashConditions

variable {n e : Int} {modulus : Nat} {signature : Bytes}

/-- The bit length of a modulus, without regard to its sign, is in range. -/
def SizedModulus (n : Int) : Prop :=
  1017 < bitLength n.natAbs ∧ bitLength n.natAbs ≤ 4096

theorem checkModulus_of_sized (h : SizedModulus n) : checkModulus n = .ok () :=
  if_pos h

theorem checkModulus_of_not_sized (h : ¬SizedModulus n) :
    checkModulus n = .error (.modulusLength (bitLength n.natAbs)) :=
  if_neg h

/-- Zero has no bits, so a modulus in range has a sign. -/
theorem SizedModulus.ne_zero (h : SizedModulus n) : n ≠ 0 := by
  rintro rfl
  exact absurd h.1 (by decide)

/-- A builder succeeds exactly on the accepted values. On others it fails, for want of a
representation as told, and else because they are out of contract. -/
structure Settles {α : Type} (built : Except Failure α) (accepted : Prop)
    (lacks : Unrepresentable → Prop) : Prop where
  exists_iff : (∃ a, built = .ok a) ↔ accepted
  unrepresentable_iff : ∀ why, built = .error (.unrepresentable why) ↔ lacks why
  refused : ¬accepted → (∀ why, ¬lacks why) → ∃ why, built = .error (.invalid why)

namespace Settles

variable {α : Type} {built : Except Failure α} {accepted : Prop} {lacks : Unrepresentable → Prop}

theorem of_ok (h : ∃ a, built = .ok a) (meets : accepted) (has : ∀ why, ¬lacks why) :
    Settles built accepted lacks := by
  obtain ⟨a, rfl⟩ := h
  refine ⟨⟨fun _ => meets, fun _ => ⟨a, rfl⟩⟩, fun why => ⟨nofun, fun lack => ?_⟩, fun fails => ?_⟩
  · exact absurd lack (has why)
  · exact absurd meets fails

theorem of_invalid (h : ∃ why, built = .error (.invalid why)) (fails : ¬accepted)
    (has : ∀ why, ¬lacks why) : Settles built accepted lacks := by
  obtain ⟨cause, rfl⟩ := h
  refine ⟨⟨nofun, fun meets => absurd meets fails⟩, fun why => ⟨nofun, fun lack => ?_⟩,
    fun _ _ => ⟨cause, rfl⟩⟩
  exact absurd lack (has why)

theorem of_unrepresentable {cause : Unrepresentable} (h : built = .error (.unrepresentable cause))
    (fails : ¬accepted) (lack : ∀ why, lacks why ↔ why = cause) :
    Settles built accepted lacks := by
  subst h
  refine ⟨⟨nofun, fun meets => absurd meets fails⟩, fun why => ?_, fun _ has => ?_⟩
  · rw [lack, Except.error.injEq, Failure.unrepresentable.injEq, eq_comm]
  · exact absurd ((lack cause).mpr rfl) (has cause)

end Settles

/-! ### Conditions -/

namespace Condition

theorem cost_rsa_le (h : SizedModulus n) : Cost.rsa n ≤ 4096 * 4096 / 64 :=
  Nat.div_le_div_right (Nat.mul_le_mul h.2 h.2)

theorem exists_ofModulus (h : SizedModulus modulus) : ∃ c, ofModulus modulus = .ok c := by
  rw [ofModulus, checkModulus_of_sized h]
  obtain ⟨why, failed⟩ | made := eq_error_or_ok (make .rsaSha256
    (Digest.sha256 (Contents.rsa modulus)) (Cost.rsa modulus) none)
  · have simple : Admissible .rsaSha256 none := by rfl
    obtain ⟨large, -⟩ :=
      make_eq_error (Digest.length_sha256 _) simple (Int.natCast_nonneg _) failed
    have small := cost_rsa_le h
    rw [maxQuantity] at large
    omega
  · exact made

theorem ofModulus?_of_not_sized (h : ¬SizedModulus n) :
    ofModulus? n = .error (.invalid (.modulusLength (bitLength n.natAbs))) := by
  rw [ofModulus?.eq_def, checkModulus_of_not_sized h]

theorem ofModulus?_of_neg (h : SizedModulus n) (negative : n < 0) :
    ofModulus? n = .error (.unrepresentable .negativeMagnitude) := by
  obtain ⟨m, rfl⟩ := Int.eq_negSucc_of_lt_zero negative
  rw [ofModulus?.eq_def, checkModulus_of_sized h]

theorem exists_ofModulus? (h : SizedModulus n) (positive : 0 < n) : ∃ c, ofModulus? n = .ok c := by
  obtain ⟨m, rfl⟩ := Int.eq_ofNat_of_zero_le (Int.le_of_lt positive)
  obtain ⟨c, made⟩ := exists_ofModulus h
  refine ⟨c, ?_⟩
  rw [ofModulus?.eq_def, checkModulus_of_sized h]
  exact mapError_eq_ok_iff.mpr made

theorem offerModulus_integer (n : Int) : offerModulus (.integer n) = ofModulus? n := by
  rw [offerModulus, offeredModulus, ofModulus?.eq_def]
  cases checked : checkModulus n with
  | error why => rfl
  | ok _ =>
    show ofModulus? n = _
    rw [ofModulus?.eq_def, checked]

end Condition

/-! ### Fulfillments -/

namespace Fulfillment

/-- Another exponent than the fixed one is refused by showing it, if it can be shown. -/
theorem ofModulus?_of_exponent_ne (h : e ≠ 65537) : ofModulus? n signature e =
    .error (if Text.isLong e.natAbs then .unrepresentable .manyDigits
      else .invalid (.exponent (toString e))) := by
  have other : ¬e = PublicExponent.value := h
  rw [ofModulus?.eq_def, if_neg other, decimalText]
  by_cases long : Text.isLong e.natAbs = true
  · rw [if_pos long, if_pos long]
  · rw [if_neg long, if_neg long]

theorem ofModulus?_of_not_sized (h : ¬SizedModulus n) : ofModulus? n signature 65537 =
    .error (.invalid (.modulusLength (bitLength n.natAbs))) := by
  have fixed : (65537 : Int) = PublicExponent.value := rfl
  rw [ofModulus?.eq_def, if_pos fixed, checkModulus_of_not_sized h]

theorem ofModulus?_of_neg (h : SizedModulus n) (negative : n < 0) :
    ofModulus? n signature 65537 = .error (.unrepresentable .negativeMagnitude) := by
  obtain ⟨m, rfl⟩ := Int.eq_negSucc_of_lt_zero negative
  have fixed : (65537 : Int) = PublicExponent.value := rfl
  rw [ofModulus?.eq_def, if_pos fixed, checkModulus_of_sized h]

theorem ofModulus?_natCast (h : SizedModulus modulus) :
    ofModulus? modulus signature 65537 = (ofModulus modulus signature).mapError .invalid := by
  have fixed : (65537 : Int) = PublicExponent.value := rfl
  rw [ofModulus?.eq_def, if_pos fixed, checkModulus_of_sized h]

theorem ofModulus?_of_length_ne (h : SizedModulus n) (positive : 0 < n)
    (length : signature.length ≠ (bitLength n.natAbs + 7) / 8) :
    ∃ why, ofModulus? n signature 65537 = .error (.invalid why) := by
  obtain ⟨m, rfl⟩ := Int.eq_ofNat_of_zero_le (Int.le_of_lt positive)
  rw [ofModulus?_natCast h, ofModulus, checkModulus_of_sized h]
  exact ⟨_, mapError_eq_error_iff.mpr ⟨_, if_neg length, rfl⟩⟩

theorem exists_ofModulus? (h : SizedModulus n) (positive : 0 < n)
    (length : signature.length = (bitLength n.natAbs + 7) / 8) :
    ∃ f, ofModulus? n signature 65537 = .ok f := by
  obtain ⟨m, rfl⟩ := Int.eq_ofNat_of_zero_le (Int.le_of_lt positive)
  obtain ⟨c, made⟩ := Condition.exists_ofModulus h
  refine ⟨rsa m .integer signature c, ?_⟩
  rw [ofModulus?_natCast h]
  exact mapError_eq_ok_iff.mpr (ofModulus_eq_ok_iff.mpr ⟨length, c, made, rfl⟩)

/-- The exponent of an RSA fulfillment that is built from integers is an integer. -/
theorem withExponent_of_ofModulus? {f : Fulfillment}
    (h : ofModulus? n signature 65537 = .ok f) : f.withExponent .integer = f := by
  by_cases sized : SizedModulus n
  · obtain negative | nonneg := Int.lt_or_le n 0
    · rw [ofModulus?_of_neg sized negative] at h
      cases h
    · obtain ⟨m, rfl⟩ := Int.eq_ofNat_of_zero_le nonneg
      rw [ofModulus?_natCast sized] at h
      obtain ⟨-, c, -, rfl⟩ := ofModulus_eq_ok_iff.mp (mapError_eq_ok_iff.mp h)
      rfl
  · rw [ofModulus?_of_not_sized sized] at h
    cases h

theorem offeredExponent_of_ne (h : e ≠ 65537) : offeredExponent (.integer e) =
    .error (if Text.isLong e.natAbs then .unrepresentable .manyDigits
      else .invalid (.exponent (toString e))) := by
  have other : ¬(Offered.integer e).whole? = some (PublicExponent.value : Int) :=
    fun same => h (Option.some.inj same)
  have shown : (Offered.integer e).shown = decimalText e := rfl
  rw [offeredExponent.eq_def, if_neg other, shown, decimalText]
  by_cases long : Text.isLong e.natAbs = true
  · rw [if_pos long, if_pos long]
    rfl
  · rw [if_neg long, if_neg long]
    rfl

theorem offerModulus_integer (n : Int) (holder : Holder) (signature : Bytes) (e : Int) :
    offerModulus (.integer n) (.octets holder signature) (.integer e) =
      ofModulus? n signature e := by
  by_cases exponent : e = 65537
  · subst exponent
    by_cases sized : SizedModulus n
    · have modulus : Condition.offeredModulus (.integer n) = .ok n := by
        rw [Condition.offeredModulus, checkModulus_of_sized sized]
        rfl
      rw [offerModulus, modulus]
      show (do return (← ofModulus? n signature 65537).withExponent .integer) = _
      cases made : ofModulus? n signature 65537 with
      | error why => rfl
      | ok f => exact congrArg Except.ok (withExponent_of_ofModulus? made)
    · have modulus : Condition.offeredModulus (.integer n) =
          .error (.modulusLength (bitLength n.natAbs)) := by
        rw [Condition.offeredModulus, checkModulus_of_not_sized sized]
        rfl
      rw [offerModulus, modulus, ofModulus?_of_not_sized sized]
      rfl
  · rw [offerModulus, offeredExponent_of_ne exponent, ofModulus?_of_exponent_ne exponent]
    rfl

end Fulfillment

/-! ### Both -/

theorem Condition.settles_ofModulus? (n : Int) :
    Settles (ofModulus? n) (0 < n ∧ SizedModulus n)
      fun why => why = .negativeMagnitude ∧ n < 0 ∧ SizedModulus n := by
  by_cases sized : SizedModulus n
  · obtain negative | zero | positive := Int.lt_trichotomy n 0
    · refine .of_unrepresentable (ofModulus?_of_neg sized negative) ?_ fun why => ?_
      · rintro ⟨positive, -⟩
        exact Int.lt_asymm negative positive
      · exact and_iff_left ⟨negative, sized⟩
    · exact absurd zero sized.ne_zero
    · refine .of_ok (exists_ofModulus? sized positive) ⟨positive, sized⟩ ?_
      rintro why ⟨-, negative, -⟩
      exact Int.lt_asymm negative positive
  · refine .of_invalid ⟨_, ofModulus?_of_not_sized sized⟩ (fun meets => sized meets.2) ?_
    rintro why ⟨-, -, has⟩
    exact sized has

theorem Fulfillment.settles_ofModulus? (n : Int) (signature : Bytes) (e : Int) :
    Settles (ofModulus? n signature e)
      (e = 65537 ∧ 0 < n ∧ SizedModulus n ∧ signature.length = (bitLength n.natAbs + 7) / 8)
      fun why => (why = .negativeMagnitude ∧ e = 65537 ∧ n < 0 ∧ SizedModulus n) ∨
        (why = .manyDigits ∧ e ≠ 65537 ∧ Text.isLong e.natAbs) := by
  by_cases exponent : e = 65537
  · subst exponent
    by_cases sized : SizedModulus n
    · obtain negative | zero | positive := Int.lt_trichotomy n 0
      · refine .of_unrepresentable (ofModulus?_of_neg sized negative) ?_ fun why => ?_
        · rintro ⟨-, positive, -⟩
          exact Int.lt_asymm negative positive
        · simp [negative, sized]
      · exact absurd zero sized.ne_zero
      · have nonneg : ¬n < 0 := Int.lt_asymm positive
        by_cases length : signature.length = (bitLength n.natAbs + 7) / 8
        · refine .of_ok (exists_ofModulus? sized positive length) ⟨rfl, positive, sized, length⟩ ?_
          simp [nonneg]
        · refine .of_invalid (ofModulus?_of_length_ne sized positive length) ?_ ?_
          · rintro ⟨-, -, -, meets⟩
            exact length meets
          · simp [nonneg]
    · refine .of_invalid ⟨_, ofModulus?_of_not_sized sized⟩ (fun meets => sized meets.2.2.1) ?_
      simp [sized]
  · by_cases long : Text.isLong e.natAbs = true
    · have fails : ofModulus? n signature e = .error (.unrepresentable .manyDigits) := by
        rw [ofModulus?_of_exponent_ne exponent, if_pos long]
      refine .of_unrepresentable fails (fun meets => exponent meets.1) ?_
      simp [exponent, long]
    · have fails : ofModulus? n signature e = .error (.invalid (.exponent (toString e))) := by
        rw [ofModulus?_of_exponent_ne exponent, if_neg long]
      refine .of_invalid ⟨_, fails⟩ (fun meets => exponent meets.1) ?_
      simp [exponent, long]

/-- **Which RSA keys are accepted.** A condition needs a positive modulus whose length is in range,
a fulfillment also the fixed exponent and a signature as long as the modulus. All else is refused
as out of contract, unless it fails before that: a negative modulus has no octets, and an exponent
of more than 4300 digits cannot be shown. -/
theorem settles_offerModulus (holder : Holder) (n : Int) (signature : Bytes) (e : Int) :
    Settles (Fulfillment.offerModulus (.integer n) (.octets holder signature) (.integer e))
        (e = 65537 ∧ 0 < n ∧ SizedModulus n ∧ signature.length = (bitLength n.natAbs + 7) / 8)
        (fun why => (why = .negativeMagnitude ∧ e = 65537 ∧ n < 0 ∧ SizedModulus n) ∨
          (why = .manyDigits ∧ e ≠ 65537 ∧ Text.isLong e.natAbs)) ∧
      Settles (Condition.offerModulus (.integer n)) (0 < n ∧ SizedModulus n)
        (fun why => why = .negativeMagnitude ∧ n < 0 ∧ SizedModulus n) := by
  rw [Fulfillment.offerModulus_integer, Condition.offerModulus_integer]
  exact ⟨Fulfillment.settles_ofModulus? n signature e, Condition.settles_ofModulus? n⟩

/-- The negative number of the smallest magnitude in range is not refused as out of contract, and
neither is the smallest exponent that cannot be shown. -/
theorem offerModulus_negative :
    Condition.offerModulus (.integer (-(Nat.pow 2 1017 : Nat))) =
        .error (.unrepresentable .negativeMagnitude) ∧
      (¬∃ why, Condition.offerModulus (.integer (-(Nat.pow 2 1017 : Nat))) =
        .error (.invalid why)) ∧
      Fulfillment.offerModulus (.integer (-(Nat.pow 2 1017 : Nat))) (.octets .string [])
          (.integer 65537) = .error (.unrepresentable .negativeMagnitude) ∧
      Fulfillment.offerModulus (.integer 1) (.octets .string [])
          (.integer (Nat.pow 10 Text.maxDigits : Nat)) = .error (.unrepresentable .manyDigits) := by
  have sized : SizedModulus (-(Nat.pow 2 1017 : Nat)) := by
    rw [SizedModulus]
    decide +kernel
  have negative : -((Nat.pow 2 1017 : Nat) : Int) < 0 := by decide +kernel
  have fails := Condition.ofModulus?_of_neg sized negative
  rw [← Condition.offerModulus_integer] at fails
  refine ⟨fails, ?_, ?_, ?_⟩
  · rintro ⟨why, refused⟩
    rw [fails] at refused
    cases refused
  · rw [Fulfillment.offerModulus_integer]
    exact Fulfillment.ofModulus?_of_neg sized negative
  · have long : Text.isLong (Nat.pow 10 Text.maxDigits) = true := decide_eq_true (Nat.le_refl _)
    have large : 65537 < Nat.pow 10 Text.maxDigits := by decide +kernel
    have other : ((Nat.pow 10 Text.maxDigits : Nat) : Int) ≠ 65537 := by omega
    rw [Fulfillment.offerModulus_integer, Fulfillment.ofModulus?_of_exponent_ne other,
      Int.natAbs_natCast, if_pos long]

end HashConditions
