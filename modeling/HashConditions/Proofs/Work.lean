import HashConditions.Proofs.CostBound
import HashConditions.Proofs.Requirements
import Mathlib.Algebra.Ring.Nat
import Mathlib.Data.Nat.Size

/-!
# Costs bound the work of verification

The work of a verification is that of the signatures the provider is asked about: so much for each
Ed25519 signature, and for an RSA signature so much as the length of the modulus makes it. These
figures are the yardstick for costs, so they are not taken from the functions that compute costs.

The cost of a condition is fixed long before, and it bounds the work of verifying any fulfillment of
it, whatever the provider answers (`Verification.verify_work_le`): a leaf costs no less than its
signature is work, each leaf is asked about once at most, and a threshold counts the subconditions
that would be the most work, as many as are fulfilled.

The cost of a prefix also pays for its message. A prefix lengthens the message of a leaf, and its
cost grows by the same length. So besides the work, a cost pays for any message that reaches the
provider, apart from the length of the original one (`Verification.Covers`); and the limit of the
outermost prefix bounds that.

## Main definitions

* `SignatureCheck.work`, `Verification.work` — the work of one check, and of several

## Main results

* `Verification.covers_asks` — the cost of a condition covers what all leaves of a fulfillment ask
* `Verification.verify_work_le` — the cost bounds the work of a verification
-/

namespace HashConditions

/-- The work of a check: a fixed amount for an Ed25519 signature, and for an RSA signature the
square of the number of bits of the modulus over 64. -/
def SignatureCheck.work : SignatureCheck → Nat
  | rsa modulus .. => modulus.size * modulus.size / 64
  | ed25519 .. => 131072

/-- The message that the signature of a check is to be one of. -/
def SignatureCheck.message : SignatureCheck → Bytes
  | rsa _ _ message _ => message
  | ed25519 _ message _ => message

/-- The bit length is the number of binary digits. -/
theorem bitLength_eq_size (n : Nat) : bitLength n = n.size :=
  Nat.le_antisymm (bitLength_le_iff.mpr n.lt_size_self) (Nat.size_le.mpr (lt_two_pow_bitLength n))

theorem Cost.rsa_natCast (modulus : Nat) :
    Cost.rsa modulus = modulus.size * modulus.size / 64 := by
  rw [Cost.rsa, Int.natAbs_natCast, bitLength_eq_size]

namespace Fulfillment

variable {f : Fulfillment}

/-! ### What the cost of a condition pays for -/

/-- A prefix pays for its subcondition, its own length, the longest message and the overhead. -/
theorem cost_ofPrefix {lead : Bytes} {maxMessageLength : Int} {sub : Fulfillment}
    (made : ofPrefix lead maxMessageLength sub = .ok f) :
    (f.condition.cost : Int) =
      Cost.prefixed lead maxMessageLength.toNat sub.condition.cost := by
  obtain ⟨c, hc, rfl⟩ := ofPrefix_eq_ok_iff.mp made
  obtain ⟨-, -, -, cost, -⟩ := Condition.ofPrefix_eq_ok_iff.mp hc
  exact cost

/-- A threshold pays for all the children that it fulfills. -/
theorem cost_ofThreshold_ge {subconditions : List Condition} {subfulfillments : List Fulfillment}
    (made : ofThreshold subconditions subfulfillments = .ok f) :
    Cost.total ((Bytes.sortBy encode subfulfillments).map fun g => (g.condition.cost : Int)) ≤
      f.condition.cost := by
  obtain ⟨-, c, hc, rfl⟩ := ofThreshold_eq_ok_iff.mp made
  obtain ⟨-, cost, paid, -, -, rfl, -⟩ := Condition.ofThreshold_eq_ok_iff.mp hc
  have counted := Cost.most_le_of_threshold? paid
  rw [allSubconditions] at counted
  generalize Bytes.sortBy encode subfulfillments = fulfilled at counted ⊢
  generalize Bytes.sortBy Condition.encode subconditions = left at counted
  have chosen : (fulfilled.map fun g => (g.condition.cost : Int)).Sublist
      ((left ++ fulfilled.map condition).map fun c => (c.cost : Int)) := by
    rw [List.map_append, List.map_map]
    exact List.sublist_append_right _ _
  have most := Cost.total_le_most chosen
  rw [List.length_map] at most
  exact Int.le_trans most counted

end Fulfillment

namespace Verification

variable {p : Provider} {f : Fulfillment} {asked rest : List SignatureCheck} {cost n : Int}

/-! ### Covered checks -/

/-- The work of several checks is the sum of what each of them is. -/
def work (asked : List SignatureCheck) : Nat :=
  (asked.map SignatureCheck.work).sum

theorem work_append (asked rest : List SignatureCheck) :
    work (asked ++ rest) = work asked + work rest := by
  rw [work, List.map_append, List.sum_append, work, work]

/-- A cost covers checks if it bounds their work, and still does if the message of one of them
counts as far as it is longer than `n`. -/
structure Covers (cost n : Int) (asked : List SignatureCheck) : Prop where
  work_le : work asked ≤ cost
  work_add_le : ∀ check ∈ asked, work asked + check.message.length ≤ cost + n

theorem Covers.nil (h : 0 ≤ cost) : Covers cost n [] where
  work_le := h
  work_add_le _ hcheck := absurd hcheck List.not_mem_nil

/-- A single check is covered by its work, if its message has just the length `n`. -/
theorem Covers.singleton (check : SignatureCheck) :
    Covers check.work check.message.length [check] := by
  have alone : work [check] = check.work := Nat.add_zero _
  refine ⟨by omega, ?_⟩
  intro check' hcheck
  obtain rfl := List.mem_singleton.mp hcheck
  omega

/-- A larger cost covers the same checks, and it makes up for messages that are shorter than they
are allowed to be. -/
theorem Covers.mono {cost' n' : Int} (h : Covers cost n asked) (le : cost ≤ cost')
    (le_add : cost + n ≤ cost' + n') : Covers cost' n' asked := by
  refine ⟨Int.le_trans h.work_le le, ?_⟩
  intro check hcheck
  exact Int.le_trans (h.work_add_le check hcheck) le_add

theorem Covers.append {cost' : Int} (h : Covers cost n asked) (h' : Covers cost' n rest) :
    Covers (cost + cost') n (asked ++ rest) := by
  have le := h.work_le
  have le' := h'.work_le
  refine ⟨?_, ?_⟩
  · rw [work_append]
    omega
  · intro check hcheck
    rw [work_append]
    rcases List.mem_append.mp hcheck with here | there
    · have bound := h.work_add_le check here
      omega
    · have bound := h'.work_add_le check there
      omega

/-- Checks that are never reached cost nothing. -/
theorem Covers.of_append (h : Covers cost n (asked ++ rest)) : Covers cost n asked := by
  obtain ⟨le, le_add⟩ := h
  rw [work_append] at le le_add
  refine ⟨by omega, ?_⟩
  intro check hcheck
  have bound := le_add check (List.mem_append_left rest hcheck)
  omega

/-! ### All leaves of a fulfillment -/

/-- What a fulfillment asks of the provider if all its requirements are met. -/
def asks (f : Fulfillment) (message : Bytes) : List SignatureCheck :=
  (requirements f message).flatMap Requirement.asks

theorem covers_asksAll {fs : List Fulfillment} {message : Bytes}
    (h : ∀ g ∈ fs, Covers g.condition.cost message.length (asks g message)) :
    Covers (Cost.total (fs.map fun g => (g.condition.cost : Int))) message.length
      ((requirementsAll fs message).flatMap Requirement.asks) := by
  induction fs with
  | nil => exact .nil (Int.le_refl 0)
  | cons g fs ih =>
    rw [requirementsAll, List.flatMap_append, List.map_cons, Cost.total_cons]
    exact (h g List.mem_cons_self).append (ih fun g' hg' => h g' (List.mem_cons_of_mem g hg'))

/-- What a prefix asks is covered by its cost without the overhead and the longest message. -/
theorem covers_asks_prefixed {lead message : Bytes} {limit : Nat} {sub : Fulfillment}
    {c : Condition}
    (h : Covers sub.condition.cost (lead ++ message).length (asks sub (lead ++ message))) :
    Covers (sub.condition.cost + lead.length) message.length
      (asks (.prefixed lead limit sub c) message) := by
  rw [List.length_append, Int.natCast_add] at h
  exact h.mono (by omega) (by omega)

/-- **The cost of a condition covers what all leaves of a fulfillment ask.** -/
theorem covers_asks (made : f.Constructible) (message : Bytes) :
    Covers f.condition.cost message.length (asks f message) := by
  induction made generalizing message with
  | preimage made =>
    obtain ⟨c, -, rfl⟩ := Fulfillment.ofPreimage_eq_ok_iff.mp made
    exact .nil (Int.natCast_nonneg _)
  | @prefixed lead maxMessageLength sub f _ made ih =>
    have cost := Fulfillment.cost_ofPrefix made
    obtain ⟨c, -, rfl⟩ := Fulfillment.ofPrefix_eq_ok_iff.mp made
    rw [Cost.prefixed] at cost
    exact (covers_asks_prefixed (ih (lead ++ message))).mono (by omega) (by omega)
  | threshold _ made ih =>
    have cost := Fulfillment.cost_ofThreshold_ge made
    obtain ⟨-, c, -, rfl⟩ := Fulfillment.ofThreshold_eq_ok_iff.mp made
    have children := covers_asksAll fun g hg =>
      ih g ((Bytes.sortBy_perm Fulfillment.encode _).mem_iff.mp hg) message
    exact children.mono cost (by omega)
  | rsa made =>
    obtain ⟨-, c, hc, rfl⟩ := Fulfillment.ofModulus_eq_ok_iff.mp made
    obtain ⟨-, -, -, cost, -⟩ := Condition.ofModulus_eq_ok_iff.mp hc
    rw [Fulfillment.condition, cost, Cost.rsa_natCast]
    exact .singleton (.rsa _ _ message _)
  | ed25519 made =>
    obtain ⟨-, -, c, hc, rfl⟩ := Fulfillment.ofPublicKey_eq_ok_iff.mp made
    obtain ⟨-, -, -, cost, -⟩ := Condition.ofPublicKey_eq_ok_iff.mp hc
    rw [Fulfillment.condition, cost]
    exact .singleton (.ed25519 _ message _)

/-! ### What a verification asks -/

/-- The checks that are asked are the first ones of all, so they are covered if all are. -/
theorem Covers.of_comesTo {message : Bytes} {earlier : List SignatureCheck}
    {answer : Except Failure Bool} (covered : Covers cost n (asks f message))
    (h : ComesTo p earlier (requirements f message) answer asked) : Covers cost n asked := by
  rw [asks] at covered
  generalize requirements f message = rs at h covered
  cases h with
  | met _ => exact covered
  | unmet before r after =>
    rw [List.append_cons, List.flatMap_append] at covered
    exact covered.of_append

/-- If a prefix asks anything, its message is not longer than it allows. The limit takes the place
of the length of the message then. -/
theorem work_add_le_of_comesTo (made : f.Constructible) (type : f.type = .prefixSha256)
    {message : Bytes} {earlier : List SignatureCheck} {answer : Except Failure Bool}
    (h : ComesTo p earlier (requirements f message) answer asked) :
    ∀ check ∈ asked, work asked + check.message.length ≤ f.condition.cost := by
  obtain ⟨lead, maxMessageLength, sub, made_sub, made⟩ := made.exists_ofPrefix type
  have cost := Fulfillment.cost_ofPrefix made
  obtain ⟨c, -, rfl⟩ := Fulfillment.ofPrefix_eq_ok_iff.mp made
  have covered := (covers_asks_prefixed (covers_asks made_sub (lead ++ message))).of_comesTo h
  intro check hcheck
  have bound := covered.work_add_le check hcheck
  rw [Cost.prefixed] at cost
  obtain ⟨met, -⟩ | ⟨-, -, rfl⟩ := comesTo_cons.mp h
  · rw [Requirement.outcome] at met
    split at met
    · cases met
    · omega
  · exact absurd hcheck List.not_mem_nil

/-- **The cost of a condition bounds the work of verifying a fulfillment of it.** Whatever condition
is to be satisfied, whatever the message is and whatever the provider answers, the checks that are
asked are no more work than the fulfillment costs. The cost of a prefix also pays for the longest
message that the provider is handed. -/
theorem verify_work_le (made : f.Constructible) (p : Provider) (c : Condition) (message : Bytes)
    (t : Trace) :
    ∃ asked, (runFrom t (verify p f c message)).2.checks = t.checks ++ asked ∧
      work asked ≤ f.condition.cost ∧
      (f.type = .prefixSha256 →
        ∀ check ∈ asked, work asked + check.message.length ≤ f.condition.cost) := by
  have unasked : ∃ asked, t.checks = t.checks ++ asked ∧ work asked ≤ f.condition.cost ∧
      (f.type = .prefixSha256 →
        ∀ check ∈ asked, work asked + check.message.length ≤ f.condition.cost) :=
    ⟨[], (List.append_nil _).symm, Nat.zero_le _,
      fun _ _ hcheck => absurd hcheck List.not_mem_nil⟩
  by_cases same : c.type = f.type
  · by_cases own : f.condition = c
    · subst own
      rw [verify_self made, check_eq_meetAll]
      obtain ⟨answer, asked, notes, comes, run⟩ := runFrom_meetAll p (requirements f message) t
      have covered := (covers_asks made message).of_comesTo comes
      rw [run]
      exact ⟨asked, rfl, Int.ofNat_le.mp covered.work_le,
        fun type => work_add_le_of_comesTo made type comes⟩
    · rw [verify, if_pos same, if_neg own]
      exact unasked
  · rw [verify, if_neg same]
    exact unasked

/-- Two signatures, one under the smallest RSA key of 1024 bits and one under an Ed25519 key. -/
def twoSigned (c d : Condition) : List Fulfillment :=
  [.rsa (2 ^ 1023) .integer (List.replicate 128 0) c,
    .ed25519 (List.replicate 32 0) (List.replicate 64 0) d]

/-- What these two ask about a message. -/
def twoChecks (message : Bytes) : List SignatureCheck :=
  [.rsa (2 ^ 1023) .integer message (List.replicate 128 0),
    .ed25519 (List.replicate 32 0) message (List.replicate 64 0)]

theorem work_twoChecks (message : Bytes) : work (twoChecks message) = 16384 + 131072 := by
  rw [work, twoChecks, List.map_cons, List.map_singleton, List.sum_pair, SignatureCheck.work,
    Nat.size_pow, SignatureCheck.work]

theorem exists_twoSigned : ∃ c d : Condition, (∀ g ∈ twoSigned c d, g.Constructible) ∧
    c.cost = 16384 ∧ d.cost = 131072 := by
  have keys : octetLength (2 ^ 1023) = 128 ∧
      (Condition.ofModulus (2 ^ 1023 : Nat)).toOption.map (·.cost) = some 16384 ∧
      (Condition.ofPublicKey (List.replicate 32 0)).toOption.map (·.cost) = some 131072 := by
    decide +kernel
  obtain ⟨octets, rsa_key, ed25519_key⟩ := keys
  obtain ⟨c, hc, rsa_cost⟩ := exists_ok_of_map_toOption rsa_key
  obtain ⟨d, hd, ed25519_cost⟩ := exists_ok_of_map_toOption ed25519_key
  have rsa : Fulfillment.ofModulus (2 ^ 1023) (List.replicate 128 0) = .ok _ :=
    Fulfillment.ofModulus_eq_ok_iff.mpr ⟨List.length_replicate.trans octets.symm, c, hc, rfl⟩
  have ed25519 : Fulfillment.ofPublicKey (List.replicate 32 0) (List.replicate 64 0) = .ok _ :=
    Fulfillment.ofPublicKey_eq_ok_iff.mpr ⟨rfl, List.length_replicate, d, hd, rfl⟩
  have made : ∀ g ∈ twoSigned c d, g.Constructible :=
    List.forall_mem_cons.mpr ⟨.rsa rsa, List.forall_mem_singleton.mpr (.ed25519 ed25519)⟩
  exact ⟨c, d, made, rsa_cost, ed25519_cost⟩

/-- A threshold can demand both signatures, and have a prefix. -/
theorem exists_prefixed_twoSigned : ∃ c d e root : Condition,
    (Fulfillment.prefixed [1] 3 (.threshold [] (twoSigned c d) e) root).Constructible ∧
      root.cost = 150532 := by
  obtain ⟨c, d, made, rsa_cost, ed25519_cost⟩ := exists_twoSigned
  have some : twoSigned c d ≠ [] := List.cons_ne_nil _ _
  have sorted : Bytes.Sorted ((twoSigned c d).map Fulfillment.encode) :=
    Bytes.sorted_cons_cons.mpr ⟨rfl, List.pairwise_singleton _ _⟩
  have paid : Cost.total ((twoSigned c d).map fun g => (g.condition.cost : Int)) +
      Cost.overhead * (twoSigned c d).length = 149504 := by
    show (c.cost : Int) + ((d.cost : Int) + 0) + 1024 * 2 = 149504
    omega
  obtain ⟨e, threshold, threshold_cost⟩ :=
    Fulfillment.exists_ofThreshold_nil some sorted (by rw [paid]; decide)
  have prefix_cost : Cost.prefixed [1] 3 e.cost = 150532 := by
    rw [Cost.prefixed, threshold_cost, paid]
    rfl
  obtain ⟨root, hroot⟩ : ∃ root, Condition.ofPrefix [1] 3 e = .ok root :=
    Condition.exists_ofPrefix_iff.mpr ⟨by decide, by decide, by rw [prefix_cost]; decide⟩
  have prefixed : Fulfillment.ofPrefix [1] 3 (.threshold [] (twoSigned c d) e) = .ok _ :=
    Fulfillment.ofPrefix_eq_ok_iff.mpr ⟨root, hroot, rfl⟩
  have cost := (Fulfillment.cost_ofPrefix prefixed).trans prefix_cost
  exact ⟨c, d, e, root, .prefixed (.threshold made threshold) prefixed, Int.ofNat.inj cost⟩

/-- A prefix over both signatures, and a message as long as the prefix allows. The provider is asked
about each of them, and the cost pays for that, for the message with the prefix in front of it, and
for the overhead. -/
theorem verify_work_le_prefixed :
    ∃ f : Fulfillment, f.Constructible ∧ f.type = .prefixSha256 ∧ f.condition.cost = 150532 ∧
      (runFrom .empty (verify (.scripted []) f f.condition [2, 3, 4])).2.checks =
        twoChecks [1, 2, 3, 4] ∧
      work (twoChecks [1, 2, 3, 4]) = 16384 + 131072 ∧
      ∀ check ∈ twoChecks [1, 2, 3, 4],
        work (twoChecks [1, 2, 3, 4]) + check.message.length ≤ f.condition.cost := by
  obtain ⟨c, d, e, root, made, cost⟩ := exists_prefixed_twoSigned
  obtain ⟨asked, run, -, bound⟩ :=
    verify_work_le made (.scripted []) (Fulfillment.condition _) [2, 3, 4] .empty
  have both : asked = twoChecks [1, 2, 3, 4] := by
    rw [verify_self made] at run
    exact run.symm
  subst both
  exact ⟨_, made, rfl, cost, run, work_twoChecks _, bound rfl⟩

end Verification

end HashConditions
