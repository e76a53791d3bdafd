import HashConditions.Condition.Binary
import HashConditions.Proofs.Reading

/-!
# Conditions have one encoding

Every condition is read back from what is written for it, whatever follows, and nothing else is
accepted. The parts of a condition are in their only forms and in their places: the fingerprint has
its fixed length, the cost is an integer in its only form, and the bit string of the subtypes ends
with the last bit that is set.

So an encoding shows where it ends, and a concatenation of encodings shows what it is made of
(`Condition.encode_append_inj`, `Condition.flatten_map_encode_inj`).

## Main results

* `TypeSet.decode_eq_ok_iff` — sets of types as bit strings
* `Condition.ofChoice_eq_ok_iff`, `Condition.read_eq_ok_iff` — conditions
* `Condition.decode_eq_ok_iff` — whole encodings of conditions
* `Condition.length_encode_le` — an encoding of a condition is short
-/

namespace HashConditions

open Der Region

namespace TypeSet

/-! ### Bit strings of types -/

theorem decode_encode (s : TypeSet) : decode s.encode = .ok s := by
  obtain ⟨a, b, c, d, e⟩ := s
  cases a <;> cases b <;> cases c <;> cases d <;> cases e <;> rfl

theorem length_encode_le (s : TypeSet) : s.encode.length ≤ 2 := by
  rw [encode, encodeBits]
  split
  · decide
  · exact Nat.le_refl _

/-- Bits that end with one that is set, in front of as many unused ones as are declared, are the
bits of the set of types they stand for. -/
theorem encode_ofBits : ∀ unused ∈ List.range' 3 5, ∀ bits ∈ List.range 256,
    bits &&& (1 <<< unused - 1) = 0 → bits &&& 1 <<< unused ≠ 0 →
      (ofBits (UInt8.ofNat bits)).encode = [UInt8.ofNat unused, UInt8.ofNat bits] := by
  decide +kernel

theorem encode_of_decode_pair {unused bits : UInt8} {s : TypeSet}
    (h : decode [unused, bits] = .ok s) : [unused, bits] = s.encode := by
  rw [decode] at h
  split at h
  · simp at h
  · next range =>
    split at h
    · simp at h
    · next padding =>
      split at h
      · simp at h
      · next last =>
        cases h
        have hu : unused.toNat ∈ List.range' 3 5 := by
          rw [List.mem_range'_1]
          simp only [not_or, UInt8.not_lt, UInt8.le_iff_toNat_le] at range
          exact ⟨range.1, Nat.lt_succ_of_le range.2⟩
        have hb : bits.toNat ∈ List.range 256 := List.mem_range.mpr bits.toNat_lt
        have written := encode_ofBits _ hu _ hb (Decidable.not_not.mp padding) last
        rw [UInt8.ofNat_toNat, UInt8.ofNat_toNat] at written
        exact written.symm

/-- A set of types has one form. -/
theorem decode_eq_ok_iff {content : Bytes} {s : TypeSet} :
    decode content = .ok s ↔ content = s.encode := by
  refine ⟨fun h => ?_, fun h => h ▸ decode_encode s⟩
  match content with
  | [] => simp [decode] at h
  | [unused] =>
    rw [decode] at h
    split at h
    · next zero =>
      cases h
      rw [zero]
      rfl
    · simp at h
  | [unused, bits] => exact encode_of_decode_pair h
  | _ :: _ :: _ :: _ => simp [decode] at h

end TypeSet

namespace Condition

/-! ### Conditions -/

variable {c d : Cursor}

/-- Compound conditions have subtypes, and simple ones do not. -/
theorem isSome_subtypes (c : Condition) : c.subtypes.isSome = c.type.isCompound := by
  have h := c.admissible
  cases hs : c.subtypes with
  | none =>
    rw [hs] at h
    exact h.symm
  | some s =>
    rw [hs] at h
    exact h.1.symm

/-- The parts of a condition, one after the other. -/
def body (c : Condition) : Bytes :=
  encodeElement (primitiveTag 0) c.fingerprint ++
    (encodeElement (primitiveTag 1) (encodeInteger c.cost) ++ encodeSubtypes c.subtypes)

theorem encode_eq (c : Condition) :
    c.encode = encodeElement (constructedTag c.type.code) c.body := rfl

theorem length_encodeInteger_cost_le (c : Condition) : (encodeInteger c.cost).length ≤ 8 :=
  length_encodeInteger_le c.cost_le

theorem length_encodeSubtypes_le (subtypes : Option TypeSet) :
    (encodeSubtypes subtypes).length ≤ 4 := by
  cases subtypes with
  | none => exact Nat.zero_le _
  | some s =>
    have := s.length_encode_le
    rw [encodeSubtypes, length_encodeElement_of_lt _ (by omega)]
    omega

theorem length_body_le (c : Condition) : c.body.length ≤ 48 := by
  have hf : c.fingerprint.length = 32 := c.length_fingerprint
  have hc := c.length_encodeInteger_cost_le
  have hs := length_encodeSubtypes_le c.subtypes
  rw [body, List.length_append, List.length_append, length_encodeElement_of_lt _ (by omega),
    length_encodeElement_of_lt _ (by omega)]
  omega

/-- An encoding of a condition is short. -/
theorem length_encode_le (c : Condition) : c.encode.length ≤ 50 := by
  have := c.length_body_le
  rw [encode_eq, length_encodeElement_of_lt _ (by omega)]
  omega

theorem readSubtypes_eq_ok_iff {type : ConditionType} {subtypes : Option TypeSet} :
    readSubtypes type c = .ok (subtypes, d) ↔
      subtypes.isSome = type.isCompound ∧ c.Spans (encodeSubtypes subtypes) d := by
  have short : primitiveTag 2 &&& 0x1F ≠ 0x1F := by decide
  rw [readSubtypes]
  constructor
  · intro h
    split at h
    · next compound =>
      split at h
      · simp at h
      · next e he =>
        obtain ⟨-, spans, -, -⟩ := (element_eq_ok_iff short).mp he
        split at h
        · simp at h
        · next s hs =>
          cases h
          have form : e.inside.rest = s.encode := TypeSet.decode_eq_ok_iff.mp hs
          rw [form] at spans
          exact ⟨compound.symm, spans⟩
    · next simple =>
      cases h
      exact ⟨(Bool.not_eq_true _ ▸ simple).symm, Cursor.spans_nil.mpr rfl⟩
  · rintro ⟨compound, spans⟩
    cases subtypes with
    | none =>
      rw [← compound, Cursor.spans_nil.mp spans]
      rfl
    | some s =>
      have hl := s.length_encode_le
      rw [← compound, Option.isSome_some, if_pos rfl,
        element_of_spans short spans (by omega)]
      simp only [Element.content, Cursor.contents_eq, TypeSet.decode_encode]

/-- The content of an element makes a condition if it holds the parts of that condition. -/
theorem ofChoice_eq_ok_iff {found : Choice Cursor} {cond : Condition} :
    ofChoice found = .ok cond ↔ found.type = cond.type ∧ found.inside.rest = cond.body := by
  have short₀ : primitiveTag 0 &&& 0x1F ≠ 0x1F := by decide
  have short₁ : primitiveTag 1 &&& 0x1F ≠ 0x1F := by decide
  constructor
  · intro h
    rw [ofChoice, bind_eq_ok_iff] at h
    obtain ⟨⟨fingerprint, c₁⟩, h₁, h⟩ := h
    rw [readOctets_eq_ok_iff short₀] at h₁
    simp only at h
    split at h
    · rw [bind_eq_ok_iff] at h
      obtain ⟨⟨cost, c₂⟩, h₂, h⟩ := h
      rw [readInteger_eq_ok_iff short₁] at h₂
      simp only [bind_eq_ok_iff] at h
      obtain ⟨⟨subtypes, c₃⟩, h₃, ⟨⟩, h₄, h⟩ := h
      rw [readSubtypes_eq_ok_iff] at h₃
      rw [finish_eq_ok_iff] at h₄
      split at h
      · next made hmade =>
        cases h
        obtain ⟨htype, rfl, hcost, rfl⟩ := make_eq_ok_iff.mp hmade
        cases Int.ofNat.inj hcost
        exact ⟨htype.symm, (h₁.1.trans (h₂.1.trans h₃.2)).rest_eq h₄⟩
      · simp at h
    · simp at h
  · intro ⟨htype, hbody⟩
    have hf : cond.fingerprint.length < 256 ^ 4 := by
      rw [cond.length_fingerprint]
      decide
    have hc := cond.length_encodeInteger_cost_le
    have spans := found.inside.spans_stop
    rw [hbody, body, Cursor.spans_append] at spans
    obtain ⟨c₁, s₁, spans⟩ := spans
    rw [Cursor.spans_append] at spans
    obtain ⟨c₂, s₂, s₃⟩ := spans
    have compound : cond.subtypes.isSome = found.type.isCompound := by
      rw [htype]
      exact cond.isSome_subtypes
    have made : make found.type cond.fingerprint cond.cost cond.subtypes = .ok cond := by
      rw [htype]
      exact cond.make_self
    rw [ofChoice, bind_eq_ok_iff]
    refine ⟨(cond.fingerprint, c₁), (readOctets_eq_ok_iff short₀).mpr ⟨s₁, hf⟩, ?_⟩
    simp only [if_pos cond.length_fingerprint, bind_eq_ok_iff]
    refine ⟨(cond.cost, c₂), (readInteger_eq_ok_iff short₁).mpr ⟨s₂, by omega⟩, ?_⟩
    refine ⟨(cond.subtypes, _), readSubtypes_eq_ok_iff.mpr ⟨compound, s₃⟩, ?_⟩
    refine ⟨(), finish_eq_ok_iff.mpr rfl, ?_⟩
    rw [made]

/-- What a condition is made from is its encoding. -/
theorem written_of_ofChoice {found : Choice Cursor} {cond : Condition}
    (h : ofChoice found = .ok cond) :
    encodeElement (constructedTag found.type.code) found.inside.rest = cond.encode := by
  obtain ⟨htype, hbody⟩ := ofChoice_eq_ok_iff.mp h
  rw [htype, hbody, encode_eq]

/-- The header of a condition, where its encoding lies ahead. -/
theorem choice_of_spans_encode {cond : Condition} (spans : c.Spans cond.encode d) :
    ∃ found, choice c .condition = .ok found ∧ found.after = d ∧ ofChoice found = .ok cond := by
  have hl : cond.body.length < 256 ^ 4 := Nat.lt_of_le_of_lt cond.length_body_le (by decide)
  exact ⟨_, choice_of_spans spans hl, rfl, ofChoice_eq_ok_iff.mpr ⟨rfl, rfl⟩⟩

/-- **Conditions have one encoding.** A condition is read if its encoding lies ahead, and nothing
else is. -/
theorem read_eq_ok_iff {cond : Condition} :
    (read c).value = .ok (cond, d) ↔ c.Spans cond.encode d := by
  rw [read, reading_eq_ok_iff]
  constructor
  · rintro ⟨found, hfound, hmade, rfl⟩
    obtain ⟨-, spans, -, -⟩ := choice_eq_ok_iff.mp hfound
    rwa [written_of_ofChoice hmade] at spans
  · intro spans
    obtain ⟨found, hfound, hafter, hmade⟩ := choice_of_spans_encode spans
    exact ⟨found, hfound, hmade, hafter⟩

theorem decode_eq_ok_iff {bs : Bytes} {cond : Condition} :
    decode bs = .ok cond ↔ bs = cond.encode := by
  rw [decode, bind_eq_ok_iff]
  constructor
  · rintro ⟨⟨other, d⟩, hread, h⟩
    obtain ⟨⟨⟩, hend, h⟩ := bind_eq_ok_iff.mp h
    cases h
    exact (read_eq_ok_iff.mp hread).rest_eq (finish_eq_ok_iff.mp hend)
  · rintro rfl
    have spans : (Cursor.ofBytes cond.encode).Spans cond.encode (Cursor.ofBytes cond.encode).stop :=
      Cursor.spans_stop _
    exact ⟨(cond, _), read_eq_ok_iff.mpr spans,
      bind_eq_ok_iff.mpr ⟨(), finish_eq_ok_iff.mpr rfl, rfl⟩⟩

/-! ### Concatenations of encodings -/

/-- An encoding shows where it ends. -/
theorem encode_append_inj {a b : Condition} {s t : Bytes} (h : a.encode ++ s = b.encode ++ t) :
    a = b ∧ s = t := by
  have ha : (read (Cursor.ofBytes (a.encode ++ s))).value = .ok (a, ⟨a.encode.length, s⟩) :=
    read_eq_ok_iff.mpr (Cursor.spans_ofBytes _ _)
  have hb : (read (Cursor.ofBytes (b.encode ++ t))).value = .ok (b, ⟨b.encode.length, t⟩) :=
    read_eq_ok_iff.mpr (Cursor.spans_ofBytes _ _)
  rw [h, hb] at ha
  simp only [Except.ok.injEq, Prod.mk.injEq, Cursor.mk.injEq] at ha
  exact ⟨ha.1.symm, ha.2.2.symm⟩

theorem encode_injective {a b : Condition} (h : a.encode = b.encode) : a = b :=
  (encode_append_inj (s := []) (t := []) (by rw [h])).1

/-- A concatenation of encodings shows what it is made of. -/
theorem flatten_map_encode_inj {as bs : List Condition}
    (h : (as.map encode).flatten = (bs.map encode).flatten) : as = bs := by
  have nonempty : ∀ (c : Condition) (s : Bytes), c.encode ++ s ≠ [] := by
    intro c s
    rw [encode_eq, encodeElement]
    exact List.cons_ne_nil _ _
  induction as generalizing bs with
  | nil =>
    cases bs with
    | nil => rfl
    | cons b bs => exact absurd h.symm (nonempty b _)
  | cons a as ih =>
    cases bs with
    | nil => exact absurd h (nonempty a _)
    | cons b bs =>
      obtain ⟨rfl, rest⟩ := encode_append_inj h
      rw [ih rest]

end Condition

end HashConditions
