import HashConditions.Fulfillment.Decode
import HashConditions.Proofs.Building
import HashConditions.Proofs.ConditionCodec
import HashConditions.Proofs.SetReading

/-!
# Fulfillments have one encoding

What is read as a fulfillment is exactly what is written for one that the builders make
(`Fulfillment.decode_eq_ok_iff`). Both directions go down the tree. Towards the encoding, the
induction is on the size of the region that is read, since the fulfillments inside it are found only
by reading. Towards the fulfillment, it is on the way in which builders made it.

A threshold is sorted three times: the builder sorts the children, writing sorts their encodings,
and reading accepts no others. The three agree because sorting what is sorted changes nothing, and
because a builder that is given its own children back makes the same fulfillment.

## Main results

* `Fulfillment.written_of_ofChoice` — what is read is what is written
* `Fulfillment.Constructible.readBack` — what is written is read
* `Fulfillment.read_eq_ok_iff`, `Fulfillment.decode_eq_ok_iff` — the two as one equivalence
* `Fulfillment.encode_of_decode` — no two octet strings stand for one fulfillment
-/

namespace HashConditions

open Der Region

namespace Fulfillment

variable {f : Fulfillment} {found : Choice Cursor} {c d : Cursor}

/-- The parts of a fulfillment, one after the other. -/
def body : Fulfillment → Bytes
  | preimage bs _ => encodeElement (primitiveTag 0) bs
  | prefixed lead maxMessageLength sub _ =>
    encodeElement (primitiveTag 0) lead ++
      (encodeElement (primitiveTag 1) (encodeInteger maxMessageLength) ++
        encodeElement (constructedTag 2) sub.encode)
  | threshold subconditions subfulfillments _ =>
    encodeElement (constructedTag 0) (Bytes.sortCanonical (subfulfillments.map encode)).flatten ++
      encodeElement (constructedTag 1)
        (Bytes.sortCanonical (subconditions.map Condition.encode)).flatten
  | rsa modulus _ signature _ =>
    encodeElement (primitiveTag 0) (Contents.modulus modulus) ++
      encodeElement (primitiveTag 1) signature
  | ed25519 publicKey signature _ =>
    encodeElement (primitiveTag 0) publicKey ++ encodeElement (primitiveTag 1) signature

theorem encode_eq (f : Fulfillment) :
    f.encode = encodeElement (constructedTag f.type.code) f.body := by
  cases f with
  | threshold subconditions subfulfillments c =>
    rw [encode, encodeAll_eq_map]
    rfl
  | _ => rfl

theorem length_body_lt (f : Fulfillment) : f.body.length < f.encode.length := by
  rw [encode_eq]
  exact length_lt_length_encodeElement _ _

/-- The header of a fulfillment, where its encoding lies ahead. -/
theorem choice_of_spans_encode (spans : c.Spans f.encode d) (short : f.body.length < 256 ^ 4) :
    ∃ found, choice c .fulfillment = .ok found ∧ found.after = d ∧ found.type = f.type ∧
      found.inside.rest = f.body := by
  rw [encode_eq] at spans
  exact ⟨_, choice_of_spans spans short, rfl, rfl, rfl⟩

/-! ### Readers without recursion -/

theorem primitiveTag_zero_short : primitiveTag 0 &&& 0x1F ≠ 0x1F := by decide

theorem primitiveTag_one_short : primitiveTag 1 &&& 0x1F ≠ 0x1F := by decide

theorem conclude_eq_ok_iff {built : Except Invalid Fulfillment} :
    (conclude found c built : Except Malformed Fulfillment) = .ok f ↔
      built = .ok f ∧ c.rest = [] := by
  cases built with
  | error why => simp [conclude]
  | ok g =>
    rw [← @finish_eq_ok_iff c found.type.name]
    cases hfin : (finish c found.type.name : Except Malformed Unit) with
    | error e => simp [conclude, hfin]
    | ok u => simp [conclude, hfin]

theorem readPreimage_eq_ok_iff :
    readPreimage found = .ok f ↔
      ∃ bs, found.inside.rest = encodeElement (primitiveTag 0) bs ∧ bs.length < 256 ^ 4 ∧
        ofPreimage bs = .ok f := by
  rw [readPreimage, bind_eq_ok_iff]
  constructor
  · rintro ⟨⟨bs, d⟩, h, hmade⟩
    obtain ⟨spans, hl⟩ := (readOctets_eq_ok_iff primitiveTag_zero_short).mp h
    obtain ⟨made, hend⟩ := conclude_eq_ok_iff.mp hmade
    exact ⟨bs, spans.rest_eq hend, hl, made⟩
  · rintro ⟨bs, hrest, hl, made⟩
    have spans := found.inside.spans_stop
    rw [hrest] at spans
    exact ⟨(bs, _), (readOctets_eq_ok_iff primitiveTag_zero_short).mpr ⟨spans, hl⟩,
      conclude_eq_ok_iff.mpr ⟨made, rfl⟩⟩

/-- A key and a signature that fill a region. -/
theorem readKeyed_iff {key signature : Bytes} {keyField signatureField : String} :
    (∃ c₁ c₂ : Cursor, (readOctets c (primitiveTag 0) keyField).value = .ok (key, c₁) ∧
      (readOctets c₁ (primitiveTag 1) signatureField).value = .ok (signature, c₂) ∧
      c₂.rest = []) ↔
    c.rest = encodeElement (primitiveTag 0) key ++ encodeElement (primitiveTag 1) signature ∧
      key.length < 256 ^ 4 ∧ signature.length < 256 ^ 4 := by
  constructor
  · rintro ⟨c₁, c₂, h₁, h₂, hend⟩
    obtain ⟨s₁, l₁⟩ := (readOctets_eq_ok_iff primitiveTag_zero_short).mp h₁
    obtain ⟨s₂, l₂⟩ := (readOctets_eq_ok_iff primitiveTag_one_short).mp h₂
    exact ⟨(s₁.trans s₂).rest_eq hend, l₁, l₂⟩
  · rintro ⟨hrest, l₁, l₂⟩
    have spans := c.spans_stop
    rw [hrest, Cursor.spans_append] at spans
    obtain ⟨c₁, s₁, s₂⟩ := spans
    exact ⟨c₁, _, (readOctets_eq_ok_iff primitiveTag_zero_short).mpr ⟨s₁, l₁⟩,
      (readOctets_eq_ok_iff primitiveTag_one_short).mpr ⟨s₂, l₂⟩, rfl⟩

theorem readRsa_eq_ok_iff :
    readRsa found = .ok f ↔
      ∃ modulus signature, (found.inside.rest = encodeElement (primitiveTag 0) modulus ++
          encodeElement (primitiveTag 1) signature ∧
          modulus.length < 256 ^ 4 ∧ signature.length < 256 ^ 4) ∧
        modulus.head?.all (· = 0) = false ∧
        ofModulus (Bytes.toNat modulus) signature = .ok f := by
  rw [readRsa, bind_eq_ok_iff]
  constructor
  · rintro ⟨⟨modulus, c₁⟩, h₁, h⟩
    simp only at h
    split at h
    · simp at h
    · next minimal =>
      obtain ⟨⟨signature, c₂⟩, h₂, hmade⟩ := bind_eq_ok_iff.mp h
      obtain ⟨made, hend⟩ := conclude_eq_ok_iff.mp hmade
      exact ⟨modulus, signature, readKeyed_iff.mp ⟨c₁, c₂, h₁, h₂, hend⟩,
        Bool.not_eq_true _ ▸ minimal, made⟩
  · rintro ⟨modulus, signature, holds, minimal, made⟩
    obtain ⟨c₁, c₂, h₁, h₂, hend⟩ := readKeyed_iff.mpr holds
    refine ⟨(modulus, c₁), h₁, ?_⟩
    simp only [minimal, Bool.false_eq_true, if_false]
    exact bind_eq_ok_iff.mpr ⟨(signature, c₂), h₂, conclude_eq_ok_iff.mpr ⟨made, hend⟩⟩

theorem readEd25519_eq_ok_iff :
    readEd25519 found = .ok f ↔
      ∃ publicKey signature, (found.inside.rest = encodeElement (primitiveTag 0) publicKey ++
          encodeElement (primitiveTag 1) signature ∧
          publicKey.length < 256 ^ 4 ∧ signature.length < 256 ^ 4) ∧
        ofPublicKey publicKey signature = .ok f := by
  rw [readEd25519, bind_eq_ok_iff]
  constructor
  · rintro ⟨⟨publicKey, c₁⟩, h₁, h⟩
    obtain ⟨⟨signature, c₂⟩, h₂, hmade⟩ := bind_eq_ok_iff.mp h
    obtain ⟨made, hend⟩ := conclude_eq_ok_iff.mp hmade
    exact ⟨publicKey, signature, readKeyed_iff.mp ⟨c₁, c₂, h₁, h₂, hend⟩, made⟩
  · rintro ⟨publicKey, signature, holds, made⟩
    obtain ⟨c₁, c₂, h₁, h₂, hend⟩ := readKeyed_iff.mpr holds
    exact ⟨(publicKey, c₁), h₁,
      bind_eq_ok_iff.mpr ⟨(signature, c₂), h₂, conclude_eq_ok_iff.mpr ⟨made, hend⟩⟩⟩

/-! ### Readers with recursion -/

theorem readPrefixParts_eq_ok_iff {parts : PrefixParts Cursor} :
    readPrefixParts c = .ok parts ↔
      ∃ c₁ c₂, (readOctets c (primitiveTag 0) "prefix").value = .ok (parts.lead, c₁) ∧
        (readInteger c₁ (primitiveTag 1) "max_message_length").value =
          .ok (parts.maxMessageLength, c₂) ∧
        element c₂ (constructedTag 2) "subfulfillment" = .ok parts.wrapper ∧
        choice parts.wrapper.inside .fulfillment = .ok parts.sub := by
  rw [readPrefixParts, bind_eq_ok_iff]
  constructor
  · rintro ⟨⟨lead, c₁⟩, h₁, h⟩
    obtain ⟨⟨limit, c₂⟩, h₂, h⟩ := bind_eq_ok_iff.mp h
    obtain ⟨wrapper, h₃, h⟩ := bind_eq_ok_iff.mp h
    obtain ⟨sub, h₄, h⟩ := bind_eq_ok_iff.mp h
    cases h
    exact ⟨c₁, c₂, h₁, h₂, h₃, h₄⟩
  · rintro ⟨c₁, c₂, h₁, h₂, h₃, h₄⟩
    refine ⟨(parts.lead, c₁), h₁, bind_eq_ok_iff.mpr ⟨(parts.maxMessageLength, c₂), h₂, ?_⟩⟩
    exact bind_eq_ok_iff.mpr ⟨parts.wrapper, h₃, bind_eq_ok_iff.mpr ⟨parts.sub, h₄, rfl⟩⟩

section Equations

variable {ρ ε : Type} [Region ρ ε] {found : Choice ρ}

/-- A prefix, by the parts in front of its subfulfillment and that subfulfillment. -/
theorem ofChoice_prefixed (htype : found.type = .prefixSha256) :
    ofChoice found =
      readPrefixParts found.inside >>= fun parts =>
        ofChoice parts.sub >>= fun sub =>
          finish parts.sub.after "subfulfillment" >>= fun _ =>
            conclude found parts.wrapper.after
              (ofPrefix parts.lead parts.maxMessageLength sub) := by
  obtain ⟨type, start, inside, after⟩ := found
  obtain rfl : type = .prefixSha256 := htype
  rw [ofChoice]
  simp only
  split
  · next e he =>
    rw [he]
    rfl
  · next parts hparts =>
    rw [hparts]
    simp only [bind, Except.bind]
    cases ofChoice parts.sub with
    | error e => rfl
    | ok sub =>
      cases (finish parts.sub.after "subfulfillment" : Except ε Unit) with
      | error e => rfl
      | ok u => rfl

/-- A threshold, by its two sets. -/
theorem ofChoice_threshold (htype : found.type = .thresholdSha256) :
    ofChoice found =
      element found.inside (constructedTag 0) "subfulfillments" >>= fun first =>
        setOf .fulfillment "subfulfillments" (size first.inside) (fun child _ => ofChoice child)
            first.inside (Nat.le_refl _) [] >>= fun subfulfillments =>
          element first.after (constructedTag 1) "subconditions" >>= fun second =>
            setOf .condition "subconditions" (size second.inside)
                (fun child _ => Condition.ofChoice child) second.inside (Nat.le_refl _) [] >>=
              fun subconditions =>
                conclude found second.after (ofThreshold subconditions subfulfillments) := by
  obtain ⟨type, start, inside, after⟩ := found
  obtain rfl : type = .thresholdSha256 := htype
  rw [ofChoice]
  simp only
  split
  · next e he =>
    rw [he]
    rfl
  · next first hfirst =>
    rw [setOf_bound (Nat.le_refl _), hfirst]
    simp only [bind, Except.bind]
    cases setOf .fulfillment "subfulfillments" (size first.inside) (fun child _ => ofChoice child)
      first.inside (Nat.le_refl _) [] with
    | error e => rfl
    | ok subfulfillments =>
      cases element first.after (constructedTag 1) "subconditions" with
      | error e => rfl
      | ok second =>
        simp only
        cases setOf .condition "subconditions" (size second.inside)
          (fun child _ => Condition.ofChoice child) second.inside (Nat.le_refl _) [] with
        | error e => rfl
        | ok subconditions => rfl

theorem ofChoice_simple (found : Choice ρ) :
    (found.type = .preimageSha256 → ofChoice found = readPreimage found) ∧
      (found.type = .rsaSha256 → ofChoice found = readRsa found) ∧
      (found.type = .ed25519Sha256 → ofChoice found = readEd25519 found) := by
  obtain ⟨type, start, inside, after⟩ := found
  refine ⟨?_, ?_, ?_⟩
  all_goals
    rintro rfl
    rw [ofChoice]

end Equations

theorem ofChoice_prefixed_eq_ok_iff (htype : found.type = .prefixSha256) :
    ofChoice found = .ok f ↔
      ∃ parts sub, readPrefixParts found.inside = .ok parts ∧ ofChoice parts.sub = .ok sub ∧
        parts.sub.after.rest = [] ∧
        ofPrefix parts.lead parts.maxMessageLength sub = .ok f ∧
        parts.wrapper.after.rest = [] := by
  rw [ofChoice_prefixed htype, bind_eq_ok_iff]
  constructor
  · rintro ⟨parts, hparts, h⟩
    obtain ⟨sub, hsub, h⟩ := bind_eq_ok_iff.mp h
    obtain ⟨⟨⟩, hend, h⟩ := bind_eq_ok_iff.mp h
    obtain ⟨made, last⟩ := conclude_eq_ok_iff.mp h
    exact ⟨parts, sub, hparts, hsub, finish_eq_ok_iff.mp hend, made, last⟩
  · rintro ⟨parts, sub, hparts, hsub, hend, made, last⟩
    refine ⟨parts, hparts, bind_eq_ok_iff.mpr ⟨sub, hsub, ?_⟩⟩
    exact bind_eq_ok_iff.mpr ⟨(), finish_eq_ok_iff.mpr hend, conclude_eq_ok_iff.mpr ⟨made, last⟩⟩

theorem ofChoice_threshold_eq_ok_iff (htype : found.type = .thresholdSha256) :
    ofChoice found = .ok f ↔
      ∃ first second subfulfillments subconditions,
        element found.inside (constructedTag 0) "subfulfillments" = .ok first ∧
        setOf .fulfillment "subfulfillments" (size first.inside) (fun child _ => ofChoice child)
          first.inside (Nat.le_refl _) [] = .ok subfulfillments ∧
        element first.after (constructedTag 1) "subconditions" = .ok second ∧
        setOf .condition "subconditions" (size second.inside)
          (fun child _ => Condition.ofChoice child) second.inside (Nat.le_refl _) [] =
            .ok subconditions ∧
        ofThreshold subconditions subfulfillments = .ok f ∧ second.after.rest = [] := by
  rw [ofChoice_threshold htype, bind_eq_ok_iff]
  constructor
  · rintro ⟨first, hfirst, h⟩
    obtain ⟨subfulfillments, hfs, h⟩ := bind_eq_ok_iff.mp h
    obtain ⟨second, hsecond, h⟩ := bind_eq_ok_iff.mp h
    obtain ⟨subconditions, hcs, h⟩ := bind_eq_ok_iff.mp h
    obtain ⟨made, last⟩ := conclude_eq_ok_iff.mp h
    exact ⟨first, second, subfulfillments, subconditions, hfirst, hfs, hsecond, hcs, made, last⟩
  · rintro ⟨first, second, subfulfillments, subconditions, hfirst, hfs, hsecond, hcs, made, last⟩
    refine ⟨first, hfirst, bind_eq_ok_iff.mpr ⟨subfulfillments, hfs, ?_⟩⟩
    refine bind_eq_ok_iff.mpr ⟨second, hsecond, bind_eq_ok_iff.mpr ⟨subconditions, hcs, ?_⟩⟩
    exact conclude_eq_ok_iff.mpr ⟨made, last⟩

/-! ### What is read is what is written -/

/-- The content of an element holds the parts of a fulfillment as they are written, and builders
make that fulfillment. -/
structure Written (found : Choice Cursor) (f : Fulfillment) : Prop where
  made : Constructible f
  type : f.type = found.type
  body : f.body = found.inside.rest

theorem Written.encode_eq (h : Written found f) :
    encodeElement (constructedTag found.type.code) found.inside.rest = f.encode := by
  rw [Fulfillment.encode_eq, h.type, h.body]

theorem written_of_preimage (htype : found.type = .preimageSha256) (h : ofChoice found = .ok f) :
    Written found f := by
  rw [(ofChoice_simple found).1 htype] at h
  obtain ⟨bs, hrest, -, made⟩ := readPreimage_eq_ok_iff.mp h
  have f_made := Constructible.preimage made
  obtain ⟨c, -, rfl⟩ := ofPreimage_eq_ok_iff.mp made
  exact ⟨f_made, htype.symm, hrest.symm⟩

/-- A modulus without a leading zero octet is written as it was read. -/
theorem modulus_toNat {modulus : Bytes} (minimal : modulus.head?.all (· = 0) = false) :
    Contents.modulus (Bytes.toNat modulus) = modulus := by
  cases modulus with
  | nil => simp at minimal
  | cons b bs =>
    have hb : b ≠ 0 := by simpa using minimal
    rw [Contents.modulus, Bytes.octetLength_toNat_cons bs hb]
    exact Bytes.ofNat_toNat (b :: bs)

theorem written_of_rsa (htype : found.type = .rsaSha256) (h : ofChoice found = .ok f) :
    Written found f := by
  rw [(ofChoice_simple found).2.1 htype] at h
  obtain ⟨modulus, signature, ⟨hrest, -⟩, minimal, made⟩ := readRsa_eq_ok_iff.mp h
  have f_made := Constructible.rsa made
  obtain ⟨-, c, -, rfl⟩ := ofModulus_eq_ok_iff.mp made
  refine ⟨f_made, htype.symm, ?_⟩
  rw [body, modulus_toNat minimal, hrest]

theorem written_of_ed25519 (htype : found.type = .ed25519Sha256) (h : ofChoice found = .ok f) :
    Written found f := by
  rw [(ofChoice_simple found).2.2 htype] at h
  obtain ⟨publicKey, signature, ⟨hrest, -⟩, made⟩ := readEd25519_eq_ok_iff.mp h
  have f_made := Constructible.ed25519 made
  obtain ⟨-, -, c, -, rfl⟩ := ofPublicKey_eq_ok_iff.mp made
  exact ⟨f_made, htype.symm, hrest.symm⟩

section Inner

variable (inner : ∀ {child : Choice Cursor} {g : Fulfillment},
  size child.inside < size found.inside → ofChoice child = .ok g → Written child g)

include inner

theorem written_of_prefixed (htype : found.type = .prefixSha256) (h : ofChoice found = .ok f) :
    Written found f := by
  obtain ⟨parts, sub, hparts, hsub, hend, made, last⟩ := (ofChoice_prefixed_eq_ok_iff htype).mp h
  have sub_written := inner (size_of_readPrefixParts hparts) hsub
  have f_made := Constructible.prefixed sub_written.made made
  obtain ⟨c, -, rfl⟩ := ofPrefix_eq_ok_iff.mp made
  obtain ⟨c₁, c₂, h₁, h₂, h₃, h₄⟩ := readPrefixParts_eq_ok_iff.mp hparts
  obtain ⟨s₁, -⟩ := (readOctets_eq_ok_iff primitiveTag_zero_short).mp h₁
  obtain ⟨s₂, -⟩ := (readInteger_eq_ok_iff primitiveTag_one_short).mp h₂
  obtain ⟨-, s₃, -⟩ := (element_eq_ok_iff (by decide)).mp h₃
  obtain ⟨-, s₄, -⟩ := choice_eq_ok_iff.mp h₄
  rw [sub_written.encode_eq] at s₄
  rw [s₄.rest_eq hend] at s₃
  exact ⟨f_made, htype.symm, ((s₁.trans (s₂.trans s₃)).rest_eq last).symm⟩

theorem written_of_threshold (htype : found.type = .thresholdSha256) (h : ofChoice found = .ok f) :
    Written found f := by
  obtain ⟨first, second, fs, cs, hfirst, hfs, hsecond, hcs, made, last⟩ :=
    (ofChoice_threshold_eq_ok_iff htype).mp h
  have within := (size_of_element hfirst).1
  obtain ⟨f_rest, f_sorted⟩ := sorted_of_setOf encode
    (fun child smaller g hg => (inner (Nat.lt_trans smaller within) hg).encode_eq) hfs
  obtain ⟨c_rest, c_sorted⟩ := sorted_of_setOf Condition.encode
    (fun child _ c hc => Condition.written_of_ofChoice hc) hcs
  have subs_made : ∀ g ∈ fs, Constructible g := by
    intro g hg
    obtain ⟨child, smaller, hchild⟩ := exists_of_mem_setOf hfs g hg
    exact (inner (Nat.lt_trans smaller within) hchild).made
  have f_made := Constructible.threshold subs_made made
  obtain ⟨-, c, -, rfl⟩ := ofThreshold_eq_ok_iff.mp made
  obtain ⟨-, s₁, -⟩ := (element_eq_ok_iff (by decide)).mp hfirst
  obtain ⟨-, s₂, -⟩ := (element_eq_ok_iff (by decide)).mp hsecond
  rw [f_rest] at s₁
  rw [c_rest] at s₂
  -- Both sets are sorted already, so neither the builder nor the encoding moves a child.
  have f_kept := (Bytes.sorted_cons.mp f_sorted).2
  have c_kept := (Bytes.sorted_cons.mp c_sorted).2
  refine ⟨f_made, htype.symm, ?_⟩
  rw [(s₁.trans s₂).rest_eq last, body, Bytes.sortBy_of_sorted encode f_kept,
    Bytes.sortBy_of_sorted Condition.encode c_kept, Bytes.sortCanonical_of_sorted f_kept,
    Bytes.sortCanonical_of_sorted c_kept]

end Inner

/-- **What is read is what is written.** The content of an element makes a fulfillment only if it
holds the parts of that fulfillment as they are written, and the fulfillment is one that the
builders make. -/
theorem written_of_ofChoice (h : ofChoice found = .ok f) : Written found f := by
  -- Fulfillments inside the content occupy smaller regions, so the induction is on the size.
  induction hn : size found.inside using Nat.strongRecOn generalizing found f with
  | ind n ih =>
  subst hn
  have inner : ∀ {child : Choice Cursor} {g : Fulfillment},
      size child.inside < size found.inside → ofChoice child = .ok g → Written child g :=
    fun smaller hg => ih _ smaller hg rfl
  cases htype : found.type with
  | preimageSha256 => exact written_of_preimage htype h
  | prefixSha256 => exact written_of_prefixed inner htype h
  | thresholdSha256 => exact written_of_threshold inner htype h
  | rsaSha256 => exact written_of_rsa htype h
  | ed25519Sha256 => exact written_of_ed25519 htype h

/-! ### What is written is read -/

/-- The parts of a fulfillment, as they are written, make that fulfillment again, if they are not
too long. -/
def ReadBack (f : Fulfillment) : Prop :=
  ∀ {found : Choice Cursor}, f.body.length < 256 ^ 4 → found.type = f.type →
    found.inside.rest = f.body → ofChoice found = .ok f

theorem readBack_preimage {bs : Bytes} (made : ofPreimage bs = .ok f) : ReadBack f := by
  intro found short htype hbody
  obtain ⟨c, -, rfl⟩ := ofPreimage_eq_ok_iff.mp made
  rw [(ofChoice_simple found).1 htype, readPreimage_eq_ok_iff]
  exact ⟨bs, hbody, Nat.lt_trans (length_lt_length_encodeElement _ _) short, made⟩

theorem readBack_prefixed {lead : Bytes} {maxMessageLength : Int} {sub : Fulfillment}
    (ih : ReadBack sub) (made : ofPrefix lead maxMessageLength sub = .ok f) : ReadBack f := by
  intro found short htype hbody
  obtain ⟨c, hc, rfl⟩ := ofPrefix_eq_ok_iff.mp made
  obtain ⟨⟨nonneg, -⟩, -⟩ := Condition.ofPrefix_eq_ok_iff.mp hc
  have l₁ := length_lt_length_encodeElement (primitiveTag 0) lead
  have l₂ := length_lt_length_encodeElement (primitiveTag 1)
    (encodeInteger maxMessageLength.toNat)
  have l₃ := length_lt_length_encodeElement (constructedTag 2) sub.encode
  have l₄ := sub.length_body_lt
  simp only [body, List.length_append] at short
  have spans := found.inside.spans_stop
  rw [hbody, body, Cursor.spans_append] at spans
  obtain ⟨c₁, s₁, spans⟩ := spans
  obtain ⟨c₂, s₂, s₃⟩ := Cursor.spans_append.mp spans
  have hlead : (readOctets found.inside (primitiveTag 0) "prefix").value = .ok (lead, c₁) :=
    (readOctets_eq_ok_iff primitiveTag_zero_short).mpr ⟨s₁, by omega⟩
  have hlimit : (readInteger c₁ (primitiveTag 1) "max_message_length").value =
      .ok (maxMessageLength.toNat, c₂) :=
    (readInteger_eq_ok_iff primitiveTag_one_short).mpr ⟨s₂, by omega⟩
  have hwrapper : element c₂ (constructedTag 2) "subfulfillment" = .ok _ :=
    element_of_spans (by decide) s₃ (by omega)
  obtain ⟨child, hchild, hafter, child_type, child_body⟩ :=
    choice_of_spans_encode (Cursor.spans_stop ⟨_, sub.encode⟩) (by omega)
  have hparts : readPrefixParts found.inside =
      .ok ⟨lead, maxMessageLength.toNat, _, child⟩ :=
    readPrefixParts_eq_ok_iff.mpr ⟨c₁, c₂, hlead, hlimit, hwrapper, hchild⟩
  have hend : child.after.rest = [] := by
    rw [hafter]
    rfl
  have hsub := ih (by omega) child_type child_body
  refine (ofChoice_prefixed_eq_ok_iff htype).mpr ⟨_, sub, hparts, hsub, hend, ?_, rfl⟩
  simp only [nonneg]
  exact made

/-- Fulfillments in canonical order are read back as a set, if each of them is. -/
theorem setOf_of_readBack {fs : List Fulfillment} {previous : Bytes} {field : String} {n : Nat}
    {hc : size c ≤ n} (ih : ∀ g ∈ fs, ReadBack g) (short : (fs.map encode).flatten.length < 256 ^ 4)
    (sorted : Bytes.Sorted (previous :: fs.map encode))
    (hrest : c.rest = (fs.map encode).flatten) :
    setOf .fulfillment field n (fun child _ => ofChoice child) c hc previous = .ok fs := by
  refine setOf_of_sorted encode ?_ sorted hrest
  intro g hg a b spans
  have l₁ := (List.sublist_flatten_of_mem (List.mem_map_of_mem (f := encode) hg)).length_le
  have l₂ := g.length_body_lt
  obtain ⟨child, hchild, hafter, child_type, child_body⟩ := choice_of_spans_encode spans (by omega)
  exact ⟨child, hchild, hafter, fun _ => ih g hg (by omega) child_type child_body⟩

theorem readBack_threshold {cs : List Condition} {fs : List Fulfillment}
    (ih : ∀ g ∈ fs, ReadBack g) (made : ofThreshold cs fs = .ok f) : ReadBack f := by
  intro found short htype hbody
  have kept := ofThreshold_kept made
  obtain ⟨-, c, -, rfl⟩ := ofThreshold_eq_ok_iff.mp made
  have f_sorted := Bytes.sorted_map_sortBy encode fs
  have c_sorted := Bytes.sorted_map_sortBy Condition.encode cs
  rw [body, Bytes.sortCanonical_of_sorted f_sorted, Bytes.sortCanonical_of_sorted c_sorted]
    at short hbody
  have ih' : ∀ g ∈ Bytes.sortBy encode fs, ReadBack g :=
    fun g hg => ih g ((Bytes.sortBy_perm encode fs).mem_iff.mp hg)
  generalize Bytes.sortBy encode fs = fulfilled at *
  generalize Bytes.sortBy Condition.encode cs = left at *
  have l₁ := length_lt_length_encodeElement (constructedTag 0) (fulfilled.map encode).flatten
  have l₂ := length_lt_length_encodeElement (constructedTag 1)
    (left.map Condition.encode).flatten
  rw [List.length_append] at short
  obtain ⟨c₁, s₁, s₂⟩ := Cursor.spans_append.mp (hbody ▸ found.inside.spans_stop)
  have first : ∀ items, Bytes.Sorted items → Bytes.Sorted ([] :: items) := fun items sorted =>
    Bytes.sorted_cons.mpr ⟨fun other _ => Bytes.lexLe_nil other, sorted⟩
  refine (ofChoice_threshold_eq_ok_iff htype).mpr ⟨_, _, fulfilled, left,
    element_of_spans (by decide) s₁ (by omega), ?_, element_of_spans (by decide) s₂ (by omega),
    ?_, kept, rfl⟩
  · exact setOf_of_readBack ih' (by omega) (first _ f_sorted) rfl
  · refine setOf_of_sorted Condition.encode ?_ (first _ c_sorted) rfl
    intro cond _ a b spans
    obtain ⟨child, hchild, hafter, hmade⟩ := Condition.choice_of_spans_encode spans
    exact ⟨child, hchild, hafter, fun _ => hmade⟩

theorem head?_modulus {n : Nat} (pos : 0 < n) :
    (Contents.modulus n).head?.all (· = 0) = false := by
  have nonzero := head?_ofNat_octetLength_ne n
  have some : 0 < (Contents.modulus n).length := by
    rw [Contents.modulus, Bytes.length_ofNat, lt_octetLength_iff]
    exact pos
  rw [← Contents.modulus] at nonzero
  cases hm : Contents.modulus n with
  | nil =>
    rw [hm] at some
    exact absurd some (Nat.lt_irrefl 0)
  | cons b bs =>
    rw [hm] at nonzero
    simpa using nonzero

theorem readBack_rsa {modulus : Nat} {signature : Bytes}
    (made : ofModulus modulus signature = .ok f) : ReadBack f := by
  intro found short htype hbody
  obtain ⟨-, c, hc, rfl⟩ := ofModulus_eq_ok_iff.mp made
  obtain ⟨⟨bits, -⟩, -⟩ := Condition.ofModulus_eq_ok_iff.mp hc
  have pos : 0 < modulus := by
    rw [Nat.pos_iff_ne_zero]
    rintro rfl
    exact absurd bits (by decide)
  have l₁ := length_lt_length_encodeElement (primitiveTag 0) (Contents.modulus modulus)
  have l₂ := length_lt_length_encodeElement (primitiveTag 1) signature
  simp only [body, List.length_append] at short
  rw [(ofChoice_simple found).2.1 htype, readRsa_eq_ok_iff]
  refine ⟨Contents.modulus modulus, signature, ⟨hbody, by omega, by omega⟩,
    head?_modulus pos, ?_⟩
  rw [Contents.toNat_modulus]
  exact made

theorem readBack_ed25519 {publicKey signature : Bytes}
    (made : ofPublicKey publicKey signature = .ok f) : ReadBack f := by
  intro found short htype hbody
  obtain ⟨-, -, c, -, rfl⟩ := ofPublicKey_eq_ok_iff.mp made
  rw [(ofChoice_simple found).2.2 htype, readEd25519_eq_ok_iff]
  have l₁ := length_lt_length_encodeElement (primitiveTag 0) publicKey
  have l₂ := length_lt_length_encodeElement (primitiveTag 1) signature
  simp only [body, List.length_append] at short
  exact ⟨publicKey, signature, ⟨hbody, by omega, by omega⟩, made⟩

/-- **What is written is read.** Whatever builders make is read back from its parts. -/
theorem Constructible.readBack (made : Constructible f) : ReadBack f := by
  induction made with
  | preimage made => exact readBack_preimage made
  | prefixed _ made ih => exact readBack_prefixed ih made
  | threshold _ made ih => exact readBack_threshold ih made
  | rsa made => exact readBack_rsa made
  | ed25519 made => exact readBack_ed25519 made

/-! ### The two directions together -/

/-- **Fulfillments have one encoding.** A fulfillment is read if builders make it, its parts are not
too long and its encoding lies ahead; and nothing else is. -/
theorem read_eq_ok_iff :
    (read c).value = .ok (f, d) ↔
      Constructible f ∧ f.body.length < 256 ^ 4 ∧ c.Spans f.encode d := by
  rw [read, reading_eq_ok_iff]
  constructor
  · rintro ⟨found, hfound, hmade, rfl⟩
    obtain ⟨-, spans, -, short⟩ := choice_eq_ok_iff.mp hfound
    have written := written_of_ofChoice hmade
    rw [written.encode_eq] at spans
    rw [← written.body] at short
    exact ⟨written.made, short, spans⟩
  · rintro ⟨made, short, spans⟩
    obtain ⟨found, hfound, hafter, htype, hbody⟩ := choice_of_spans_encode spans short
    exact ⟨found, hfound, made.readBack short htype hbody, hafter⟩

theorem decode_eq_ok_iff {bs : Bytes} :
    decode bs = .ok f ↔ Constructible f ∧ f.body.length < 256 ^ 4 ∧ f.encode = bs := by
  rw [decode, bind_eq_ok_iff]
  constructor
  · rintro ⟨⟨g, d⟩, hread, h⟩
    obtain ⟨⟨⟩, hend, h⟩ := bind_eq_ok_iff.mp h
    cases h
    obtain ⟨made, short, spans⟩ := read_eq_ok_iff.mp hread
    exact ⟨made, short, (spans.rest_eq (finish_eq_ok_iff.mp hend)).symm⟩
  · rintro ⟨made, short, rfl⟩
    have spans : (Cursor.ofBytes f.encode).Spans f.encode (Cursor.ofBytes f.encode).stop :=
      Cursor.spans_stop _
    exact ⟨(f, _), read_eq_ok_iff.mpr ⟨made, short, spans⟩,
      bind_eq_ok_iff.mpr ⟨(), finish_eq_ok_iff.mpr rfl, rfl⟩⟩

/-! ### Equal fulfillments -/

mutual

/-- The encoding holds the fields of a fulfillment and nothing else. -/
theorem encode_eq_of_same : ∀ (f : Fulfillment) {g : Fulfillment}, f.same g = true →
    f.encode = g.encode
  | preimage p _, g, h => by
    cases g with
    | preimage q d =>
      obtain rfl : p = q := by simpa [same] using h
      rfl
    | _ => exact nomatch h
  | prefixed p m f _, g, h => by
    cases g with
    | prefixed q n g d =>
      simp only [same, Bool.and_eq_true, beq_iff_eq] at h
      obtain ⟨⟨rfl, rfl⟩, hsub⟩ := h
      rw [encode, encode, encode_eq_of_same f hsub]
    | _ => exact nomatch h
  | threshold cs fs _, g, h => by
    cases g with
    | threshold ds gs d =>
      simp only [same, Bool.and_eq_true, beq_iff_eq] at h
      obtain ⟨rfl, hsub⟩ := h
      rw [encode, encode, encodeAll_eq_of_same fs hsub]
    | _ => exact nomatch h
  | rsa m _ s _, g, h => by
    cases g with
    | rsa n e t d =>
      simp only [same, Bool.and_eq_true, beq_iff_eq] at h
      obtain ⟨rfl, rfl⟩ := h
      rfl
    | _ => exact nomatch h
  | ed25519 k s _, g, h => by
    cases g with
    | ed25519 l t d =>
      simp only [same, Bool.and_eq_true, beq_iff_eq] at h
      obtain ⟨rfl, rfl⟩ := h
      rfl
    | _ => exact nomatch h

theorem encodeAll_eq_of_same : ∀ (fs : List Fulfillment) {gs : List Fulfillment},
    sameList fs gs = true → encodeAll fs = encodeAll gs
  | [], gs, h => by
    cases gs with
    | nil => rfl
    | cons g gs => exact nomatch h
  | f :: fs, gs, h => by
    cases gs with
    | nil => exact nomatch h
    | cons g gs =>
      simp only [sameList, Bool.and_eq_true] at h
      rw [encodeAll, encodeAll, encode_eq_of_same f h.1, encodeAll_eq_of_same fs h.2]

end

/-- The encoding of a prefix over a preimage, both of them empty. -/
def prefixedSample : Bytes :=
  [0xA1, 11, 0x80, 0, 0x81, 1, 0, 0xA2, 4, 0xA0, 2, 0x80, 0]

theorem exists_decode_prefixedSample :
    ∃ f, decode prefixedSample = .ok f ∧ f.type = .prefixSha256 ∧ f.same f = true := by
  have reads : (decode prefixedSample).toOption.map (fun f => (f.type, f.same f)) =
      some (.prefixSha256, true) := by
    decide +kernel
  obtain ⟨f, hf, parts⟩ := exists_ok_of_map_toOption reads
  obtain ⟨htype, hsame⟩ := Prod.mk.inj parts
  exact ⟨f, hf, htype, hsame⟩

/-- **Canonical encodings only.** An octet string that is read as a fulfillment is the encoding of
that fulfillment. So two octet strings that are read as fulfillments with the same fields are the
same. -/
theorem encode_of_decode {bs : Bytes} (h : decode bs = .ok f) :
    f.encode = bs ∧ ∀ {cs g}, decode cs = .ok g → f.same g = true → bs = cs := by
  obtain ⟨-, -, written⟩ := decode_eq_ok_iff.mp h
  refine ⟨written, ?_⟩
  intro cs g hg hsame
  obtain ⟨-, -, written'⟩ := decode_eq_ok_iff.mp hg
  rw [← written, encode_eq_of_same f hsame, written']

theorem encode_of_decode_prefixed :
    ∃ f, decode prefixedSample = .ok f ∧ f.type = .prefixSha256 ∧ f.same f = true ∧
      f.encode = prefixedSample ∧
      ∀ {cs g}, decode cs = .ok g → f.same g = true → prefixedSample = cs := by
  obtain ⟨f, hf, htype, hsame⟩ := exists_decode_prefixedSample
  exact ⟨f, hf, htype, hsame, encode_of_decode hf⟩

end Fulfillment

end HashConditions
