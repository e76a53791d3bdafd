import HashConditions.Condition.Offer
import HashConditions.Condition.Offer.Contents
import HashConditions.Proofs.Building
import HashConditions.Proofs.WorstCase

/-!
# Compound conditions exist if their cost fits

The condition of a prefix or of a threshold is put together in several steps: a bounded number is
checked, contents are encoded and digested, costs are added up, types are collected, and at the end
the parts go through the checks of `Condition.make`. The bound on the cost is one of the last.

Nothing can go wrong in between. A number that has passed its check is not negative, so it has an
encoding; the digest has the length of a fingerprint; the types beneath a compound type do not
include it. What is left of the checks at the end is the bound on the cost
(`Condition.make_eq_error`). So a compound condition exists exactly if the number is in range and
the cost, computed without any bound, is at most the largest quantity.

All this is stated for the builders that take what callers offer, which could fail in other ways.

## Main definitions

* `Condition.MakesIf` — what a builder makes and when, and how it fails otherwise

## Main results

* `Condition.makesIf_offer` — prefixes and thresholds
-/

namespace HashConditions

variable {what : Quantity} {n : Int} {why : Invalid}

theorem Quantity.check_eq_error_iff : what.check n = .error why ↔
    (n < 0 ∧ why = .negative what) ∨ (maxQuantity < n ∧ why = .tooLarge what) := by
  rw [Quantity.check]
  split
  · next negative =>
    have small : ¬(maxQuantity : Int) < n := by omega
    simp [negative, small, eq_comm]
  · next nonneg =>
    split
    · next large =>
      have above : (maxQuantity : Int) < n := by omega
      simp [nonneg, above, eq_comm]
    · next small =>
      have bounded : ¬(maxQuantity : Int) < n := by omega
      simp [nonneg, bounded]

/-- A compound condition may have the types beneath it as its subtypes. -/
theorem admissible_compoundSubtypes {own : ConditionType} (h : own.isCompound = true)
    (subs : List Condition) : Admissible own (some (compoundSubtypes own subs)) := by
  refine ⟨h, ?_⟩
  simp [compoundSubtypes]

namespace Condition

variable {holder : Holder} {lead : Bytes} {limit threshold cost : Int} {sub : Condition}
  {subs : List Condition} {type : ConditionType} {fingerprint : Bytes} {subtypes : Option TypeSet}
  {causes : List Invalid} {fits : Prop} {made : Except Failure Condition}

/-- If fingerprint and subtypes are as they should be and the cost is not negative, then a condition
can only be too expensive. -/
theorem make_eq_error (length : fingerprint.length = fingerprintLength)
    (admissible : Admissible type subtypes) (nonneg : 0 ≤ cost)
    (h : make type fingerprint cost subtypes = .error why) :
    maxQuantity < cost ∧ why = .tooLarge .cost := by
  rw [make, dif_pos length] at h
  split at h
  · next fault refused =>
    cases h
    obtain ⟨negative, -⟩ | large := Quantity.check_eq_error_iff.mp refused
    · omega
    · exact large
  · rw [dif_pos admissible] at h
    cases h

/-- A builder makes a condition of the given cost if the values it gets fit, and no condition
otherwise. It then fails for one of the given causes. -/
structure MakesIf (made : Except Failure Condition) (fits : Prop) (cost : Int)
    (causes : List Invalid) : Prop where
  exists_iff : (∃ c, made = .ok c) ↔ fits
  cost_eq : ∀ c, made = .ok c → c.cost = cost
  refused : ¬fits → ∃ why ∈ causes, made = .error (.invalid why)

theorem MakesIf.of_mapError {built : Except Invalid Condition}
    (exists_iff : (∃ c, built = .ok c) ↔ fits) (cost_eq : ∀ c, built = .ok c → c.cost = cost)
    (mem : ∀ why, built = .error why → why ∈ causes) :
    MakesIf (built.mapError .invalid) fits cost causes where
  exists_iff := by
    simp only [mapError_eq_ok_iff]
    exact exists_iff
  cost_eq := by
    simp only [mapError_eq_ok_iff]
    exact cost_eq
  refused := by
    intro none
    obtain ⟨why, failed⟩ | made := eq_error_or_ok built
    · exact ⟨why, mem why failed, mapError_eq_error_iff.mpr ⟨why, failed, rfl⟩⟩
    · exact absurd (exists_iff.mp made) none

/-! ### Prefixes -/

theorem cost_prefixed_nonneg (h : 0 ≤ limit) : 0 ≤ Cost.prefixed lead limit sub.cost := by
  rw [Cost.prefixed]
  omega

/-- A limit that is out of range and a cost that is too large are all that can be wrong. -/
theorem ofPrefix_eq_error (h : ofPrefix lead limit sub = .error why) :
    (limit < 0 ∧ why = .negative .maxMessageLength) ∨
      (maxQuantity < limit ∧ why = .tooLarge .maxMessageLength) ∨
      (maxQuantity < Cost.prefixed lead limit sub.cost ∧ why = .tooLarge .cost) := by
  rw [ofPrefix] at h
  split at h
  · next fault refused =>
    cases h
    obtain negative | large := Quantity.check_eq_error_iff.mp refused
    · exact .inl negative
    · exact .inr (.inl large)
  · next n checked =>
    obtain ⟨rfl, -⟩ := Quantity.check_eq_ok_iff.mp checked
    have nonneg : 0 ≤ Cost.prefixed lead n sub.cost := cost_prefixed_nonneg (Int.natCast_nonneg n)
    exact .inr (.inr (make_eq_error (Digest.length_sha256 _) (admissible_compoundSubtypes rfl _)
      nonneg h))

theorem exists_ofPrefix_iff : (∃ c, ofPrefix lead limit sub = .ok c) ↔
    0 ≤ limit ∧ limit ≤ maxQuantity ∧ Cost.prefixed lead limit sub.cost ≤ maxQuantity := by
  constructor
  · rintro ⟨c, hc⟩
    obtain ⟨⟨nonneg, small⟩, -, -, paid, -⟩ := ofPrefix_eq_ok_iff.mp hc
    have most := c.cost_le
    rw [nonneg] at paid
    exact ⟨by omega, by omega, by omega⟩
  · rintro ⟨nonneg, small, bound⟩
    obtain ⟨why, refused⟩ | made := eq_error_or_ok (ofPrefix lead limit sub)
    · obtain ⟨out, -⟩ | ⟨out, -⟩ | ⟨out, -⟩ := ofPrefix_eq_error refused
      · omega
      · omega
      · omega
    · exact made

theorem offerPrefix_proper :
    offerPrefix (.octets holder lead) (.integer limit) (.condition sub) =
      (ofPrefix lead limit sub).mapError .invalid := by
  rw [offerPrefix, Offered.toQuantity]
  cases checked : Quantity.maxMessageLength.check limit with
  | error fault =>
    rw [ofPrefix, checked]
    rfl
  | ok n =>
    obtain ⟨rfl, -⟩ := Quantity.check_eq_ok_iff.mp checked
    rfl

/-! ### Thresholds -/

/-- Fewer subconditions than none or more than there are, and a cost that is too large, are all that
can be wrong. -/
theorem ofThreshold_eq_error (h : ofThreshold threshold subs = .error why) :
    why ∈ [Invalid.negative .threshold, .tooLarge .threshold, .thresholdZero,
      .thresholdExceeds (toString threshold.toNat) subs.length, .tooLarge .cost] := by
  rw [ofThreshold] at h
  split at h
  · next fault refused =>
    cases h
    obtain ⟨-, rfl⟩ | ⟨-, rfl⟩ := Quantity.check_eq_error_iff.mp refused
    · simp
    · simp
  · next demanded checked =>
    obtain ⟨rfl, -⟩ := Quantity.check_eq_ok_iff.mp checked
    split at h
    · cases h
      simp
    · split at h
      · cases h
        simp
      · next cost paid =>
        have nonneg : 0 ≤ cost :=
          Int.le_trans (Cost.most_nonneg _ (costs_nonneg subs)) (Cost.most_le_of_threshold? paid)
        obtain ⟨-, rfl⟩ := make_eq_error (Digest.length_sha256 _)
          (admissible_compoundSubtypes rfl _) nonneg h
        simp

theorem nonneg_of_ofThreshold {c : Condition} (h : ofThreshold threshold subs = .ok c) :
    0 ≤ threshold := by
  rw [ofThreshold] at h
  split at h
  · cases h
  · next demanded checked =>
    obtain ⟨rfl, -⟩ := Quantity.check_eq_ok_iff.mp checked
    exact Int.natCast_nonneg _

theorem exists_ofThreshold_int_iff : (∃ c, ofThreshold threshold subs = .ok c) ↔
    1 ≤ threshold ∧ threshold ≤ subs.length ∧
      Cost.most threshold.toNat (subs.map fun c => c.cost) + Cost.overhead * subs.length ≤
        maxQuantity := by
  constructor
  · rintro ⟨c, hc⟩
    obtain ⟨demanded, rfl⟩ := Int.eq_ofNat_of_zero_le (nonneg_of_ofThreshold hc)
    obtain ⟨pos, enough, bound⟩ := exists_ofThreshold_iff.mp ⟨c, hc⟩
    exact ⟨by omega, by omega, bound⟩
  · rintro ⟨pos, enough, bound⟩
    obtain ⟨demanded, rfl⟩ := Int.eq_ofNat_of_zero_le (Int.le_trans (by decide) pos)
    exact exists_ofThreshold_iff.mpr ⟨by omega, by omega, bound⟩

theorem mapM_toCondition (subs : List Condition) :
    (subs.map Offered.condition).mapM Offered.toCondition = .ok subs := by
  induction subs with
  | nil => rfl
  | cons sub subs ih =>
    rw [List.map_cons, List.mapM_cons, ih]
    rfl

theorem offerThreshold_proper :
    offerThreshold (.integer threshold) (.list (subs.map .condition)) =
      (ofThreshold threshold subs).mapError .invalid := by
  have items : Offered.toItems (.list (subs.map .condition)) = .ok (subs.map .condition) := rfl
  rw [offerThreshold, Offered.toQuantity, items]
  cases checked : Quantity.threshold.check threshold with
  | error fault =>
    rw [ofThreshold, checked]
    rfl
  | ok demanded =>
    obtain ⟨rfl, -⟩ := Quantity.check_eq_ok_iff.mp checked
    by_cases zero : demanded = 0
    · subst zero
      rfl
    · show (if demanded = 0 then _ else _) = _
      rw [if_neg zero]
      show (do let all ← (subs.map Offered.condition).mapM Offered.toCondition; _) = _
      rw [mapM_toCondition]
      rfl

/-! ### Contents -/

theorem contents_offerPrefix (h : 0 ≤ limit) :
    Contents.offerPrefix (.octets holder lead) (.integer limit) (.condition sub) =
      .ok (Contents.prefixed lead limit.toNat sub) := by
  obtain ⟨n, rfl⟩ := Int.eq_ofNat_of_zero_le h
  rfl

theorem contents_offerThreshold (h : 0 ≤ threshold) :
    Contents.offerThreshold (.integer threshold) (.list (subs.map .condition)) =
      .ok (Contents.threshold threshold.toNat subs) := by
  obtain ⟨n, rfl⟩ := Int.eq_ofNat_of_zero_le h
  have items : Offered.toItems (.list (subs.map .condition)) = .ok (subs.map .condition) := rfl
  rw [Contents.offerThreshold, items]
  show (do let all ← (subs.map Offered.condition).mapM Offered.toCondition; _) = _
  rw [mapM_toCondition]
  rfl

/-! ### What is made -/

/-- Quantities fit in 63 bits. -/
theorem maxQuantity_eq : (maxQuantity : Int) = 2 ^ 63 - 1 := by
  rw [maxQuantity]
  rfl

theorem makesIf_offerPrefix (holder : Holder) (lead : Bytes) (limit : Int) (sub : Condition) :
    MakesIf (offerPrefix (.octets holder lead) (.integer limit) (.condition sub))
      (0 ≤ limit ∧ limit ≤ 2 ^ 63 - 1 ∧ lead.length + limit + sub.cost + 1024 ≤ 2 ^ 63 - 1)
      (lead.length + limit + sub.cost + 1024)
      [.negative .maxMessageLength, .tooLarge .maxMessageLength, .tooLarge .cost] := by
  rw [offerPrefix_proper, ← maxQuantity_eq]
  refine .of_mapError exists_ofPrefix_iff ?_ ?_
  · intro c hc
    obtain ⟨⟨same, -⟩, -, -, paid, -⟩ := ofPrefix_eq_ok_iff.mp hc
    rw [same] at paid
    exact paid
  · intro why failed
    obtain ⟨-, rfl⟩ | ⟨-, rfl⟩ | ⟨-, rfl⟩ := ofPrefix_eq_error failed
    · simp
    · simp
    · simp

/-- A threshold counts the most expensive of its subconditions. -/
theorem makesIf_offerThreshold (threshold : Int) (subs : List Condition) :
    MakesIf (offerThreshold (.integer threshold) (.list (subs.map .condition)))
      (1 ≤ threshold ∧ threshold ≤ subs.length ∧
        Cost.most threshold.toNat (subs.map fun c => c.cost) + 1024 * subs.length ≤ 2 ^ 63 - 1)
      (Cost.most threshold.toNat (subs.map fun c => c.cost) + 1024 * subs.length)
      [.negative .threshold, .tooLarge .threshold, .thresholdZero,
        .thresholdExceeds (toString threshold.toNat) subs.length, .tooLarge .cost] := by
  rw [offerThreshold_proper, ← maxQuantity_eq]
  refine .of_mapError exists_ofThreshold_int_iff ?_ fun why => ofThreshold_eq_error
  intro c hc
  obtain ⟨demanded, rfl⟩ := Int.eq_ofNat_of_zero_le (nonneg_of_ofThreshold hc)
  obtain ⟨-, cost, paid, -, -, same, -⟩ := ofThreshold_eq_ok_iff.mp hc
  obtain ⟨-, rfl⟩ := Cost.threshold?_eq_some_iff.mp paid
  rw [List.length_map] at same
  exact same

/-- **A compound condition exists exactly if its cost fits**, and it has that cost. A prefix needs a
limit in range, a threshold has to demand one of its subconditions at least and no more than there
are. What a threshold counts is the largest sum of as many costs as it demands, which there is if it
does not demand more of them than there are. In every other case the cause is one of the values or
the cost that they lead to: neither are the subtypes ever at fault, nor does a number ever lack an
encoding. -/
theorem makesIf_offer (holder : Holder) (lead : Bytes) (limit threshold : Int) (sub : Condition)
    (subs : List Condition) :
    MakesIf (offerPrefix (.octets holder lead) (.integer limit) (.condition sub))
        (0 ≤ limit ∧ limit ≤ 2 ^ 63 - 1 ∧ lead.length + limit + sub.cost + 1024 ≤ 2 ^ 63 - 1)
        (lead.length + limit + sub.cost + 1024)
        [.negative .maxMessageLength, .tooLarge .maxMessageLength, .tooLarge .cost] ∧
      (∃ worst : Int,
        (threshold ≤ subs.length →
          Cost.Worst threshold.toNat (subs.map fun c => (c.cost : Int)) worst) ∧
        MakesIf (offerThreshold (.integer threshold) (.list (subs.map .condition)))
          (1 ≤ threshold ∧ threshold ≤ subs.length ∧ worst + 1024 * subs.length ≤ 2 ^ 63 - 1)
          (worst + 1024 * subs.length)
          [.negative .threshold, .tooLarge .threshold, .thresholdZero,
            .thresholdExceeds (toString threshold.toNat) subs.length, .tooLarge .cost]) ∧
      (0 ≤ limit →
        Contents.offerPrefix (.octets holder lead) (.integer limit) (.condition sub) =
          .ok (Contents.prefixed lead limit.toNat sub)) ∧
      (0 ≤ threshold →
        Contents.offerThreshold (.integer threshold) (.list (subs.map .condition)) =
          .ok (Contents.threshold threshold.toNat subs)) := by
  refine ⟨makesIf_offerPrefix holder lead limit sub, ⟨_, ?_, makesIf_offerThreshold threshold subs⟩,
    contents_offerPrefix, contents_offerThreshold⟩
  intro enough
  apply Cost.worst_most
  rw [List.length_map]
  omega

end Condition

end HashConditions
