import HashConditions.Proofs.Building
import HashConditions.Proofs.ConditionCodec

/-!
# Contents bind what they commit to

The fingerprint of a condition is the digest of its contents, so nothing may be lost on the way from
what a condition commits to its contents. The contents of a threshold forget the order of the
subconditions, and that is all that any contents forget. They hold the encodings of the
subconditions one after the other, with nothing in between: an encoding shows where it ends, and a
sorted list stands for a multiset.

So two fulfillments of one condition commit to the same (`Fulfillment.CommitsAlike`), or their
contents are a collision of the digest.

## Main results

* `Contents.prefixed_inj`, `Contents.threshold_inj_iff` — what the contents of compound conditions
  determine, and likewise for keys
* `Fulfillment.commitsAlike_of_contents_eq` — fulfillments with the same contents commit alike
* `contents_bind` — all of it, and what it means for fulfillments of one condition
-/

namespace HashConditions

open Der

/-! ### Contents -/

theorem Der.encodeInteger_inj {m n : Nat} (h : encodeInteger m = encodeInteger n) : m = n := by
  have hm : decodeInteger (encodeInteger m) = .ok m := decodeInteger_eq_ok_iff.mpr rfl
  have hn : decodeInteger (encodeInteger n) = .ok n := decodeInteger_eq_ok_iff.mpr rfl
  rw [h] at hm
  exact Except.ok.inj (hm.symm.trans hn)

namespace Contents

theorem prefixed_inj {p q : Bytes} {m n : Nat} {a b : Condition}
    (hp : (prefixed p m a).length < 256 ^ 127) (hq : (prefixed q n b).length < 256 ^ 127)
    (h : prefixed p m a = prefixed q n b) : p = q ∧ m = n ∧ a = b := by
  have parts := encodeElement_inj (Nat.lt_trans (length_lt_length_encodeElement _ _) hp)
    (Nat.lt_trans (length_lt_length_encodeElement _ _) hq) h
  simp only [prefixed, length_encodeElement, List.length_append] at hp hq
  obtain ⟨leads, parts⟩ := encodeElement_append_inj (by omega) (by omega) parts
  obtain ⟨limits, parts⟩ := encodeElement_append_inj (by omega) (by omega) parts
  have subs := encodeElement_inj (by omega) (by omega) parts
  exact ⟨leads, encodeInteger_inj limits, Condition.encode_injective subs⟩

/-- Only the order of the subconditions is forgotten. -/
theorem threshold_inj_iff {t u : Nat} {S T : List Condition}
    (hS : (threshold t S).length < 256 ^ 127) (hT : (threshold u T).length < 256 ^ 127) :
    threshold t S = threshold u T ↔ t = u ∧ S.Perm T := by
  constructor
  · intro h
    have parts := encodeElement_inj (Nat.lt_trans (length_lt_length_encodeElement _ _) hS)
      (Nat.lt_trans (length_lt_length_encodeElement _ _) hT) h
    simp only [threshold, length_encodeElement, List.length_append] at hS hT
    obtain ⟨thresholds, parts⟩ := encodeElement_append_inj (by omega) (by omega) parts
    have subs := encodeElement_inj (by omega) (by omega) parts
    rw [← Bytes.map_sortBy, ← Bytes.map_sortBy] at subs
    have sorted := Condition.flatten_map_encode_inj subs
    have perm : S.Perm (Bytes.sortBy Condition.encode T) := by
      rw [← sorted]
      exact (Bytes.sortBy_perm _ S).symm
    exact ⟨encodeInteger_inj thresholds, perm.trans (Bytes.sortBy_perm _ T)⟩
  · rintro ⟨rfl, perm⟩
    rw [threshold, threshold, Bytes.sortCanonical_eq_iff.mpr (perm.map Condition.encode)]

theorem rsa_inj {m n : Nat} (hm : (rsa m).length < 256 ^ 127) (hn : (rsa n).length < 256 ^ 127)
    (h : rsa m = rsa n) : m = n := by
  have parts := encodeElement_inj (Nat.lt_trans (length_lt_length_encodeElement _ _) hm)
    (Nat.lt_trans (length_lt_length_encodeElement _ _) hn) h
  simp only [rsa, length_encodeElement] at hm hn
  have octets := encodeElement_inj (by omega) (by omega) parts
  rw [← toNat_modulus m, octets, toNat_modulus]

theorem ed25519_inj {k l : Bytes} (hk : (ed25519 k).length < 256 ^ 127)
    (hl : (ed25519 l).length < 256 ^ 127) (h : ed25519 k = ed25519 l) : k = l := by
  have parts := encodeElement_inj (Nat.lt_trans (length_lt_length_encodeElement _ _) hk)
    (Nat.lt_trans (length_lt_length_encodeElement _ _) hl) h
  simp only [ed25519, length_encodeElement] at hk hl
  exact encodeElement_inj (by omega) (by omega) parts

end Contents

/-! ### How long contents are -/

/-- A condition is short, so contents are not much longer than what they are made of. -/
theorem Contents.length_prefixed_le {p : Bytes} {n : Nat} (c : Condition) (h : n ≤ maxQuantity) :
    (prefixed p n c).length ≤ 4 * p.length + 256 := by
  have l₁ := length_encodeElement_le (primitiveTag 0) p
  have l₂ := length_encodeElement_le (primitiveTag 1) (encodeInteger n)
  have l₃ := length_encodeElement_le (constructedTag 2) c.encode
  have l₄ := length_encodeInteger_le h
  have l₅ := c.length_encode_le
  refine Nat.le_trans (length_encodeElement_le _ _) ?_
  rw [List.length_append, List.length_append]
  omega

theorem Condition.length_flatten_map_encode_le (subs : List Condition) :
    (subs.map encode).flatten.length ≤ 50 * subs.length := by
  induction subs with
  | nil => exact Nat.le_refl 0
  | cons c subs ih =>
    have := c.length_encode_le
    rw [List.map_cons, List.flatten_cons, List.length_append, List.length_cons]
    omega

theorem Contents.length_threshold_le {t : Nat} (subs : List Condition) (h : t ≤ maxQuantity) :
    (threshold t subs).length ≤ 200 * subs.length + 64 := by
  have l₁ := length_encodeElement_le (primitiveTag 0) (encodeInteger t)
  have l₂ := length_encodeElement_le (constructedTag 1)
    (Bytes.sortCanonical (subs.map Condition.encode)).flatten
  have l₃ := length_encodeInteger_le h
  have l₄ := Condition.length_flatten_map_encode_le (Bytes.sortBy Condition.encode subs)
  rw [Bytes.map_sortBy, (Bytes.sortBy_perm _ subs).length_eq] at l₄
  refine Nat.le_trans (length_encodeElement_le _ _) ?_
  rw [List.length_append]
  omega

theorem Contents.length_rsa_le (n : Nat) : (rsa n).length ≤ 4 * octetLength n + 6 := by
  have l₁ := length_encodeElement_le (primitiveTag 0) (modulus n)
  refine Nat.le_trans (length_encodeElement_le _ _) ?_
  rw [modulus, Bytes.length_ofNat] at l₁
  rw [modulus]
  omega

theorem Contents.length_ed25519_le (publicKey : Bytes) :
    (ed25519 publicKey).length ≤ 4 * publicKey.length + 6 := by
  have l₁ := length_encodeElement_le (primitiveTag 0) publicKey
  refine Nat.le_trans (length_encodeElement_le _ _) ?_
  omega

/-- A threshold costs an overhead for each subcondition at least. -/
theorem Cost.overhead_le_threshold {demanded : Nat} {cost : Int} {subs : List Condition}
    (h : threshold? demanded (subs.map fun c => (c.cost : Int)) = some cost) :
    overhead * subs.length ≤ cost := by
  obtain ⟨-, rfl⟩ := threshold?_eq_some_iff.mp h
  have chosen := most_nonneg demanded (Condition.costs_nonneg subs)
  rw [List.length_map]
  omega

namespace Fulfillment

variable {f g : Fulfillment}

/-- The cost of a fulfillment that builders make pays for its contents, so those are not too long to
show where their parts end. A preimage is its own contents and has no parts. -/
theorem Constructible.length_contents_lt (made : Constructible f) (h : f.type ≠ .preimageSha256) :
    f.contents.length < 256 ^ 127 := by
  cases made with
  | preimage made =>
    obtain ⟨c, -, rfl⟩ := ofPreimage_eq_ok_iff.mp made
    exact absurd rfl h
  | @prefixed lead maxMessageLength sub _ _ made =>
    obtain ⟨c, hc, rfl⟩ := ofPrefix_eq_ok_iff.mp made
    obtain ⟨⟨-, limit⟩, -, -, paid, -⟩ := Condition.ofPrefix_eq_ok_iff.mp hc
    have most : c.cost ≤ 0x7FFFFFFFFFFFFFFF := c.cost_le
    have bound := Contents.length_prefixed_le (p := lead) sub.condition limit
    rw [Cost.prefixed] at paid
    rw [contents]
    omega
  | @threshold cs fs _ _ made =>
    obtain ⟨-, c, hc, rfl⟩ := ofThreshold_eq_ok_iff.mp made
    obtain ⟨⟨-, limit⟩, cost, hcost, -, -, paid, -⟩ := Condition.ofThreshold_eq_ok_iff.mp hc
    have most : c.cost ≤ 0x7FFFFFFFFFFFFFFF := c.cost_le
    have bound := Contents.length_threshold_le (allSubconditions (Bytes.sortBy Condition.encode cs)
      (Bytes.sortBy encode fs)) limit
    have overheads := Cost.overhead_le_threshold hcost
    rw [Cost.overhead] at overheads
    rw [contents]
    omega
  | @rsa modulus _ _ made =>
    obtain ⟨-, c, hc, rfl⟩ := ofModulus_eq_ok_iff.mp made
    obtain ⟨⟨-, bits⟩, -⟩ := Condition.ofModulus_eq_ok_iff.mp hc
    have bound := Contents.length_rsa_le modulus
    rw [octetLength] at bound
    rw [contents]
    omega
  | @ed25519 publicKey _ _ made =>
    obtain ⟨hl, -, c, -, rfl⟩ := ofPublicKey_eq_ok_iff.mp made
    have bound := Contents.length_ed25519_le publicKey
    rw [contents]
    omega

/-! ### Fulfillments of one condition -/

/-- Both fulfillments are of one type and commit to the same preimage, key, prefix with limit and
subcondition, or threshold over the same subconditions in any order. -/
def CommitsAlike : Fulfillment → Fulfillment → Prop
  | preimage p _, preimage q _ => p = q
  | prefixed p m f _, prefixed q n g _ => p = q ∧ m = n ∧ f.condition = g.condition
  | threshold cs fs _, threshold ds gs _ =>
    fs.length = gs.length ∧ (allSubconditions cs fs).Perm (allSubconditions ds gs)
  | rsa m _ _ _, rsa n _ _ _ => m = n
  | ed25519 k _ _, ed25519 l _ _ => k = l
  | _, _ => False

theorem commitsAlike_of_contents_eq (hf : Constructible f) (hg : Constructible g)
    (htype : f.type = g.type) (h : f.contents = g.contents) : CommitsAlike f g := by
  by_cases simple : f.type = .preimageSha256
  · cases f with
    | preimage p c =>
      cases g with
      | preimage q d => exact h
      | _ => exact nomatch htype
    | _ => exact nomatch simple
  · have lf := hf.length_contents_lt simple
    have lg := hg.length_contents_lt (htype ▸ simple)
    cases f with
    | preimage p c => exact absurd rfl simple
    | prefixed p m f c =>
      cases g with
      | prefixed q n g d => exact Contents.prefixed_inj lf lg h
      | _ => exact nomatch htype
    | threshold cs fs c =>
      cases g with
      | threshold ds gs d => exact (Contents.threshold_inj_iff lf lg).mp h
      | _ => exact nomatch htype
    | rsa m e s c =>
      cases g with
      | rsa n e t d => exact Contents.rsa_inj lf lg h
      | _ => exact nomatch htype
    | ed25519 k s c =>
      cases g with
      | ed25519 l t d => exact Contents.ed25519_inj lf lg h
      | _ => exact nomatch htype

/-- Two fulfillments of one condition that do not commit alike are a collision of the digest. -/
theorem commitsAlike_or_collision (hf : Constructible f) (hg : Constructible g)
    (h : f.condition = g.condition) :
    CommitsAlike f g ∨
      f.contents ≠ g.contents ∧ Digest.sha256 f.contents = Digest.sha256 g.contents := by
  obtain ⟨ftype, fdigest⟩ := hf.condition_spec
  obtain ⟨gtype, gdigest⟩ := hg.condition_spec
  have htype : f.type = g.type := by rw [← ftype, h, gtype]
  have digests : Digest.sha256 f.contents = Digest.sha256 g.contents := by
    rw [← fdigest, h, gdigest]
  by_cases same : f.contents = g.contents
  · exact .inl (commitsAlike_of_contents_eq hf hg htype same)
  · exact .inr ⟨same, digests⟩

end Fulfillment

/-- **Contents bind what they commit to.** Contents below the length that can be read determine what
they were made from, up to the order of subconditions. So two fulfillments of one condition commit
alike, or their contents collide. -/
theorem contents_bind :
    (∀ {p q : Bytes} {m n : Nat} {a b : Condition}, (Contents.prefixed p m a).length < 2 ^ 32 →
      (Contents.prefixed q n b).length < 2 ^ 32 →
      Contents.prefixed p m a = Contents.prefixed q n b → p = q ∧ m = n ∧ a = b) ∧
    (∀ {t u : Nat} {S T : List Condition}, (Contents.threshold t S).length < 2 ^ 32 →
      (Contents.threshold u T).length < 2 ^ 32 →
      (Contents.threshold t S = Contents.threshold u T ↔ t = u ∧ S.Perm T)) ∧
    (∀ {m n : Nat}, (Contents.rsa m).length < 2 ^ 32 → (Contents.rsa n).length < 2 ^ 32 →
      Contents.rsa m = Contents.rsa n → m = n) ∧
    (∀ {k l : Bytes}, (Contents.ed25519 k).length < 2 ^ 32 →
      (Contents.ed25519 l).length < 2 ^ 32 → Contents.ed25519 k = Contents.ed25519 l → k = l) ∧
    ∀ {f g : Fulfillment}, f.Constructible → g.Constructible → f.condition = g.condition →
      f.CommitsAlike g ∨
        f.contents ≠ g.contents ∧ Digest.sha256 f.contents = Digest.sha256 g.contents := by
  have short : ∀ {n : Nat}, n < 2 ^ 32 → n < 256 ^ 127 := fun h => Nat.lt_trans h (by decide)
  refine ⟨?_, ?_, ?_, ?_, ?_⟩
  · intro p q m n a b hp hq
    exact Contents.prefixed_inj (short hp) (short hq)
  · intro t u S T hS hT
    exact Contents.threshold_inj_iff (short hS) (short hT)
  · intro m n hm hn
    exact Contents.rsa_inj (short hm) (short hn)
  · intro k l hk hl
    exact Contents.ed25519_inj (short hk) (short hl)
  · exact Fulfillment.commitsAlike_or_collision

/-- Two signatures under one key commit alike; and what differs in anything else than the order of
subconditions has other contents. -/
theorem contents_bind_signatures :
    ∃ f g : Fulfillment, f.Constructible ∧ g.Constructible ∧ f.same g = false ∧ f.CommitsAlike g ∧
      Contents.prefixed [] 1 f.condition ≠ Contents.prefixed [] 2 f.condition ∧
      Contents.threshold 1 [f.condition] ≠ Contents.threshold 1 [f.condition, f.condition] ∧
      Contents.rsa 1 ≠ Contents.rsa 2 ∧ Contents.ed25519 [1] ≠ Contents.ed25519 [2] := by
  have derived : (Condition.ofPublicKey (List.replicate 32 0)).toOption.map Condition.type =
      some .ed25519Sha256 := by
    decide +kernel
  obtain ⟨c, hc, -⟩ := exists_ok_of_map_toOption derived
  have signed : ∀ b : UInt8, (Fulfillment.ed25519 (List.replicate 32 0) (List.replicate 64 b)
      c).Constructible := fun b =>
    .ed25519 (Fulfillment.ofPublicKey_eq_ok_iff.mpr ⟨rfl, List.length_replicate, c, hc, rfl⟩)
  have limit : ∀ n ≤ maxQuantity, (Contents.prefixed [] n c).length < 2 ^ 32 :=
    fun n hn => Nat.lt_of_le_of_lt (Contents.length_prefixed_le _ hn) (by decide)
  have few : ∀ subs : List Condition, subs.length ≤ 2 →
      (Contents.threshold 1 subs).length < 2 ^ 32 := by
    intro subs hl
    have := Contents.length_threshold_le (t := 1) subs (by decide)
    omega
  obtain ⟨prefixed, threshold, rsa, ed25519, fulfillments⟩ := contents_bind
  refine ⟨_, _, signed 0, signed 1, rfl, ?_, ?_, ?_, ?_, ?_⟩
  · exact (fulfillments (signed 0) (signed 1) rfl).resolve_right fun collision => collision.1 rfl
  · intro h
    exact absurd (prefixed (limit 1 (by decide)) (limit 2 (by decide)) h).2.1 (by decide)
  · intro h
    have perm := ((threshold (few [c] (Nat.le_succ 1)) (few [c, c] (Nat.le_refl 2))).mp h).2
    exact nomatch perm.length_eq
  · intro h
    exact absurd (rsa (by decide) (by decide) h) (by decide)
  · intro h
    exact absurd (ed25519 (by decide) (by decide) h) (by decide)

end HashConditions
