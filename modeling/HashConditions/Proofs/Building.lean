import HashConditions.Fulfillment.Build
import HashConditions.Proofs.Costs
import HashConditions.Proofs.Reading
import HashConditions.Proofs.Sorting

/-!
# What builders make

Each builder of a fulfillment gets through exactly if its checks do and the condition of its type
exists, and the result holds the fields it was given. Only the builder of thresholds changes
anything: it sorts the children. So what it makes is what it would make from the sorted children
again (`Fulfillment.ofThreshold_kept`), and that is what reading does.

The same is done for the conditions, since a fulfillment exists only if its condition does. Their
type and their fingerprint follow from the fulfillment (`Fulfillment.Constructible.condition_spec`).
-/

namespace HashConditions

/-- A modulus is the number that its octets spell. -/
theorem Contents.toNat_modulus (n : Nat) : Bytes.toNat (modulus n) = n :=
  Bytes.toNat_ofNat_of_lt (lt_pow_octetLength n)

/-! ### Deriving conditions -/

namespace Condition

variable {c : Condition}

theorem ofPreimage_eq_ok_iff {preimage : Bytes} :
    ofPreimage preimage = .ok c ↔
      c.type = .preimageSha256 ∧ c.fingerprint = Digest.sha256 (Contents.preimage preimage) ∧
        (c.cost : Int) = Cost.preimage preimage ∧ c.subtypes = none :=
  make_eq_ok_iff

theorem ofPrefix_eq_ok_iff {lead : Bytes} {maxMessageLength : Int} {sub : Condition} :
    ofPrefix lead maxMessageLength sub = .ok c ↔
      (maxMessageLength.toNat = maxMessageLength ∧ maxMessageLength.toNat ≤ maxQuantity) ∧
        c.type = .prefixSha256 ∧
        c.fingerprint = Digest.sha256 (Contents.prefixed lead maxMessageLength.toNat sub) ∧
        (c.cost : Int) = Cost.prefixed lead maxMessageLength.toNat sub.cost ∧
        c.subtypes = some (compoundSubtypes .prefixSha256 [sub]) := by
  rw [ofPrefix]
  split
  · next why hwhy =>
    constructor
    · intro h
      simp at h
    · rintro ⟨⟨nonneg, le⟩, -⟩
      have bounded : Quantity.maxMessageLength.check maxMessageLength = .ok _ :=
        Quantity.check_eq_ok_iff.mpr ⟨nonneg.symm, le⟩
      simp [hwhy] at bounded
  · next limit hlimit =>
    obtain ⟨rfl, le⟩ := Quantity.check_eq_ok_iff.mp hlimit
    rw [make_eq_ok_iff, Int.toNat_natCast]
    exact ⟨fun made => ⟨⟨rfl, le⟩, made⟩, fun made => made.2⟩

theorem ofThreshold_eq_ok_iff {threshold : Nat} {subs : List Condition} :
    ofThreshold threshold subs = .ok c ↔
      (0 < threshold ∧ threshold ≤ maxQuantity) ∧
        ∃ cost, Cost.threshold? threshold (subs.map fun c => c.cost) = some cost ∧
        c.type = .thresholdSha256 ∧
        c.fingerprint = Digest.sha256 (Contents.threshold threshold subs) ∧
        (c.cost : Int) = cost ∧
        c.subtypes = some (compoundSubtypes .thresholdSha256 subs) := by
  rw [ofThreshold]
  split
  · next why hwhy =>
    constructor
    · intro h
      simp at h
    · rintro ⟨⟨-, le⟩, -⟩
      have bounded : Quantity.threshold.check threshold = .ok threshold :=
        Quantity.check_eq_ok_iff.mpr ⟨rfl, le⟩
      simp [hwhy] at bounded
  · next demanded hdemanded =>
    obtain ⟨heq, le⟩ := Quantity.check_eq_ok_iff.mp hdemanded
    obtain rfl : threshold = demanded := Int.ofNat.inj heq
    split
    · next zero => simp [zero]
    · next pos =>
      have range : 0 < threshold ∧ threshold ≤ maxQuantity := ⟨Nat.pos_of_ne_zero pos, le⟩
      split
      · next none => simp [none]
      · next cost hcost =>
        rw [make_eq_ok_iff]
        constructor
        · intro made
          exact ⟨range, cost, hcost, made⟩
        · rintro ⟨-, cost', hcost', made⟩
          obtain rfl : cost' = cost := Option.some.inj (hcost'.symm.trans hcost)
          exact made

theorem costs_nonneg (subs : List Condition) :
    ∀ n ∈ subs.map fun c => (c.cost : Int), 0 ≤ n := by
  intro n hn
  obtain ⟨sub, -, rfl⟩ := List.mem_map.mp hn
  exact Int.natCast_nonneg _

/-- A threshold over subconditions has a condition if it demands one of them at least, no more than
there are, and if its cost is not too large. -/
theorem exists_ofThreshold_iff {threshold : Nat} {subs : List Condition} :
    (∃ c, ofThreshold threshold subs = .ok c) ↔
      0 < threshold ∧ threshold ≤ subs.length ∧
        Cost.most threshold (subs.map fun c => c.cost) + Cost.overhead * subs.length ≤
          maxQuantity := by
  have chosen := Cost.most_nonneg threshold (costs_nonneg subs)
  constructor
  · rintro ⟨c, hc⟩
    obtain ⟨⟨pos, -⟩, cost, hcost, -, -, paid, -⟩ := ofThreshold_eq_ok_iff.mp hc
    obtain ⟨enough, rfl⟩ := Cost.threshold?_eq_some_iff.mp hcost
    rw [List.length_map] at enough paid
    have most := c.cost_le
    exact ⟨pos, enough, by omega⟩
  · rintro ⟨pos, enough, bound⟩
    have overheads : 0 ≤ Cost.overhead * (subs.length : Int) :=
      Int.mul_nonneg (Int.natCast_nonneg _) (Int.natCast_nonneg _)
    obtain ⟨cost, hcost⟩ := Int.eq_ofNat_of_zero_le (Int.add_nonneg chosen overheads)
    have paid : Cost.threshold? threshold (subs.map fun c => (c.cost : Int)) =
        some (cost : Int) := by
      rw [Cost.threshold?_eq_some_iff, List.length_map]
      exact ⟨enough, hcost.symm⟩
    rw [hcost] at bound
    rw [Cost.overhead] at hcost
    have others : ConditionType.thresholdSha256 ∉ compoundSubtypes .thresholdSha256 subs := by
      simp [compoundSubtypes]
    exact ⟨⟨.thresholdSha256, Digest.sha256 (Contents.threshold threshold subs), cost,
      some (compoundSubtypes .thresholdSha256 subs), Digest.length_sha256 _, by omega, rfl, others⟩,
      ofThreshold_eq_ok_iff.mpr ⟨⟨pos, by omega⟩, _, paid, rfl, rfl, rfl, rfl⟩⟩

/-- It is enough if all costs together are not too large. -/
theorem exists_ofThreshold {threshold : Nat} {subs : List Condition} (pos : 0 < threshold)
    (enough : threshold ≤ subs.length)
    (fits : Cost.total (subs.map fun c => c.cost) + Cost.overhead * subs.length ≤ maxQuantity) :
    ∃ c, ofThreshold threshold subs = .ok c := by
  have some := Cost.most_le_total threshold (costs_nonneg subs)
  exact exists_ofThreshold_iff.mpr ⟨pos, enough, Int.le_trans (Int.add_le_add_right some _) fits⟩

theorem ofModulus_eq_ok_iff {modulus : Nat} :
    ofModulus modulus = .ok c ↔
      (1017 < bitLength modulus ∧ bitLength modulus ≤ 4096) ∧
        c.type = .rsaSha256 ∧ c.fingerprint = Digest.sha256 (Contents.rsa modulus) ∧
        (c.cost : Int) = Cost.rsa modulus ∧ c.subtypes = none := by
  rw [ofModulus, checkModulus, Int.natAbs_natCast]
  split
  · next why hwhy =>
    split at hwhy
    · simp at hwhy
    · next range => simp [range]
  · next hwhy =>
    split at hwhy
    · next range =>
      rw [make_eq_ok_iff]
      exact ⟨fun made => ⟨range, made⟩, fun made => made.2⟩
    · simp at hwhy

theorem ofPublicKey_eq_ok_iff {publicKey : Bytes} :
    ofPublicKey publicKey = .ok c ↔
      publicKey.length = 32 ∧
        c.type = .ed25519Sha256 ∧ c.fingerprint = Digest.sha256 (Contents.ed25519 publicKey) ∧
        (c.cost : Int) = Cost.ed25519 ∧ c.subtypes = none := by
  rw [ofPublicKey]
  split
  · next hl =>
    rw [make_eq_ok_iff]
    exact ⟨fun made => ⟨hl, made⟩, fun made => made.2⟩
  · next hl => simp [hl]

end Condition

namespace Fulfillment

variable {f : Fulfillment}

/-! ### The builders, one by one -/

theorem ofPreimage_eq_ok_iff {bs : Bytes} :
    ofPreimage bs = .ok f ↔ ∃ c, Condition.ofPreimage bs = .ok c ∧ preimage bs c = f :=
  map_eq_ok_iff

theorem ofPrefix_eq_ok_iff {lead : Bytes} {maxMessageLength : Int} {sub : Fulfillment} :
    ofPrefix lead maxMessageLength sub = .ok f ↔
      ∃ c, Condition.ofPrefix lead maxMessageLength sub.condition = .ok c ∧
        prefixed lead maxMessageLength.toNat sub c = f :=
  map_eq_ok_iff

/-- The children as a threshold keeps them, and the condition it gets from them. -/
theorem ofThreshold_eq_ok_iff {subconditions : List Condition}
    {subfulfillments : List Fulfillment} :
    ofThreshold subconditions subfulfillments = .ok f ↔
      subfulfillments ≠ [] ∧
      ∃ c, Condition.ofThreshold (Bytes.sortBy encode subfulfillments).length
          (allSubconditions (Bytes.sortBy Condition.encode subconditions)
            (Bytes.sortBy encode subfulfillments)) = .ok c ∧
        threshold (Bytes.sortBy Condition.encode subconditions)
          (Bytes.sortBy encode subfulfillments) c = f := by
  rw [ofThreshold]
  split
  · next h =>
    rw [List.isEmpty_iff] at h
    simp [h]
  · next h =>
    rw [List.isEmpty_iff] at h
    rw [map_eq_ok_iff]
    exact ⟨fun made => ⟨h, made⟩, fun made => made.2⟩

theorem ofModulus_eq_ok_iff {modulus : Nat} {signature : Bytes} :
    ofModulus modulus signature = .ok f ↔
      signature.length = octetLength modulus ∧
      ∃ c, Condition.ofModulus modulus = .ok c ∧ rsa modulus .integer signature c = f := by
  rw [ofModulus]
  split
  · next why hwhy =>
    constructor
    · intro h
      simp at h
    · rintro ⟨-, c, hc, -⟩
      rw [Condition.ofModulus, hwhy] at hc
      simp at hc
  · split
    · next hl =>
      rw [map_eq_ok_iff]
      exact ⟨fun made => ⟨hl, made⟩, fun made => made.2⟩
    · next hl => simp [hl]

theorem ofPublicKey_eq_ok_iff {publicKey signature : Bytes} :
    ofPublicKey publicKey signature = .ok f ↔
      publicKey.length = 32 ∧ signature.length = 64 ∧
      ∃ c, Condition.ofPublicKey publicKey = .ok c ∧ ed25519 publicKey signature c = f := by
  rw [ofPublicKey]
  split
  · next hk =>
    split
    · next hl =>
      rw [map_eq_ok_iff]
      exact ⟨fun made => ⟨hk, hl, made⟩, fun made => made.2.2⟩
    · next hl => simp [hl]
  · next hk => simp [hk]

/-- A threshold is made from its own children as well. -/
theorem ofThreshold_kept {subconditions : List Condition} {subfulfillments : List Fulfillment}
    (h : ofThreshold subconditions subfulfillments = .ok f) :
    ofThreshold (Bytes.sortBy Condition.encode subconditions)
      (Bytes.sortBy encode subfulfillments) = .ok f := by
  obtain ⟨some, c, hc, rfl⟩ := ofThreshold_eq_ok_iff.mp h
  have kept : Bytes.sortBy encode subfulfillments ≠ [] := by
    intro none
    have := (Bytes.sortBy_perm encode subfulfillments).symm
    rw [none, List.perm_nil] at this
    exact some this
  refine ofThreshold_eq_ok_iff.mpr ⟨kept, c, ?_, ?_⟩
  · rw [Bytes.sortBy_sortBy, Bytes.sortBy_sortBy]
    exact hc
  · rw [Bytes.sortBy_sortBy, Bytes.sortBy_sortBy]

/-- A threshold that leaves nothing open costs all that its children cost. -/
theorem exists_ofThreshold_nil {fs : List Fulfillment} (some : fs ≠ [])
    (sorted : Bytes.Sorted (fs.map encode))
    (fits : Cost.total (fs.map fun g => (g.condition.cost : Int)) + Cost.overhead * fs.length ≤
      maxQuantity) :
    ∃ c : Condition, ofThreshold [] fs = .ok (threshold [] fs c) ∧
      (c.cost : Int) = Cost.total (fs.map fun g => (g.condition.cost : Int)) +
        Cost.overhead * fs.length := by
  have costs : (fs.map condition).map (fun c => (c.cost : Int)) =
      fs.map fun g => (g.condition.cost : Int) :=
    List.map_map
  obtain ⟨c, hc⟩ : ∃ c, Condition.ofThreshold fs.length (fs.map condition) = .ok c := by
    refine Condition.exists_ofThreshold (List.length_pos_of_ne_nil some) ?_ ?_
    · rw [List.length_map]
    · rw [costs, List.length_map]
      exact fits
  refine ⟨c, ?_, ?_⟩
  · rw [ofThreshold_eq_ok_iff, Bytes.sortBy_of_sorted encode sorted, Bytes.sortBy,
      List.mergeSort_nil]
    exact ⟨some, c, hc, rfl⟩
  · obtain ⟨-, cost, paid, -, -, same, -⟩ := Condition.ofThreshold_eq_ok_iff.mp hc
    obtain ⟨-, rfl⟩ := Cost.threshold?_eq_some_iff.mp paid
    have all := Cost.most_length (fs.map fun g => (g.condition.cost : Int))
    rw [List.length_map] at all
    rw [same, costs, List.length_map, all]

/-! ### The condition of a fulfillment -/

/-- A fulfillment fulfills a condition of its own type, whose fingerprint is the digest of the
contents of the fulfillment. -/
theorem Constructible.condition_spec (h : Constructible f) :
    f.condition.type = f.type ∧ f.condition.fingerprint = Digest.sha256 f.contents := by
  cases h with
  | preimage made =>
    obtain ⟨c, hc, rfl⟩ := ofPreimage_eq_ok_iff.mp made
    obtain ⟨type, fingerprint, -⟩ := Condition.ofPreimage_eq_ok_iff.mp hc
    exact ⟨type, fingerprint⟩
  | prefixed _ made =>
    obtain ⟨c, hc, rfl⟩ := ofPrefix_eq_ok_iff.mp made
    obtain ⟨-, type, fingerprint, -⟩ := Condition.ofPrefix_eq_ok_iff.mp hc
    exact ⟨type, fingerprint⟩
  | threshold _ made =>
    obtain ⟨-, c, hc, rfl⟩ := ofThreshold_eq_ok_iff.mp made
    obtain ⟨-, -, -, type, fingerprint, -⟩ := Condition.ofThreshold_eq_ok_iff.mp hc
    exact ⟨type, fingerprint⟩
  | rsa made =>
    obtain ⟨-, c, hc, rfl⟩ := ofModulus_eq_ok_iff.mp made
    obtain ⟨-, type, fingerprint, -⟩ := Condition.ofModulus_eq_ok_iff.mp hc
    exact ⟨type, fingerprint⟩
  | ed25519 made =>
    obtain ⟨-, -, c, hc, rfl⟩ := ofPublicKey_eq_ok_iff.mp made
    obtain ⟨-, type, fingerprint, -⟩ := Condition.ofPublicKey_eq_ok_iff.mp hc
    exact ⟨type, fingerprint⟩

/-- A fulfillment of the type of prefixes is a prefix over another fulfillment. -/
theorem Constructible.exists_ofPrefix (h : Constructible f) (type : f.type = .prefixSha256) :
    ∃ lead maxMessageLength sub,
      Constructible sub ∧ ofPrefix lead maxMessageLength sub = .ok f := by
  cases h with
  | prefixed sub made => exact ⟨_, _, _, sub, made⟩
  | preimage made =>
    obtain ⟨c, -, rfl⟩ := ofPreimage_eq_ok_iff.mp made
    cases type
  | threshold _ made =>
    obtain ⟨-, c, -, rfl⟩ := ofThreshold_eq_ok_iff.mp made
    cases type
  | rsa made =>
    obtain ⟨-, c, -, rfl⟩ := ofModulus_eq_ok_iff.mp made
    cases type
  | ed25519 made =>
    obtain ⟨-, -, c, -, rfl⟩ := ofPublicKey_eq_ok_iff.mp made
    cases type

end Fulfillment

end HashConditions
