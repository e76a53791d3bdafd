import HashConditions.Number.Amount

/-!
# Exponents

Both signature schemes raise numbers to large exponents modulo a number. Squaring the base and
halving the exponent takes as many steps as the exponent has binary digits (`Signature.powMod`).

All RSA keys have the same public exponent. It may be given as an integer or as the floating-point
number of the same value, and keeps that form where it is passed on or shown. Nothing else depends
on the form: no encoding has the exponent, and no comparison or signature check sees a difference.
-/

namespace HashConditions

/-! ### Modular powers -/

namespace Signature

/-- The remainder of `base ^ exponent` modulo `m`. -/
def powMod (m base exponent : Nat) : Nat :=
  if exponent = 0 then 1 % m
  else
    let rest := powMod m (base * base % m) (exponent / 2)
    if exponent % 2 = 1 then base * rest % m else rest
termination_by exponent

/-- The result is the remainder of the power. -/
theorem powMod_eq (m base exponent : Nat) :
    powMod m base exponent = Nat.pow base exponent % m := by
  induction exponent using Nat.strongRecOn generalizing base with
  | ind e ih =>
    unfold powMod
    split
    · next h => simp [h]
    · next h =>
      have half := ih (e / 2) (by omega) (base * base % m)
      have square : (base * base % m) ^ (e / 2) % m = base ^ (2 * (e / 2)) % m := by
        rw [← Nat.pow_mod, Nat.pow_mul, Nat.pow_two]
      simp only [Nat.pow_eq] at half ⊢
      rw [half, square]
      split
      · next odd =>
        rw [Nat.mul_mod_mod, ← Nat.pow_succ']
        congr 2
        omega
      · next even =>
        congr 2
        omega

end Signature

/-! ### The public exponent -/

/-- The fixed public exponent, in either form. -/
inductive PublicExponent
  | integer
  | floating
deriving DecidableEq

namespace PublicExponent

/-- The value of the public exponent. -/
def value : Nat :=
  65537

/-- The public exponent as an amount. -/
def amount : PublicExponent → Amount
  | integer => .whole value
  | floating => .floating (.ofDecimal false value 0)

/-- Both forms have the one value. -/
theorem whole?_amount (e : PublicExponent) : e.amount.whole? = some (value : Int) := by
  cases e <;> decide +kernel

end PublicExponent

end HashConditions
