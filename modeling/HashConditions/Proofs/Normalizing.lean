import HashConditions.Proofs.Authorities
import HashConditions.Proofs.PlainText

/-!
# Components in normal form

Whether the percent signs of a component are kept or encoded is decided for the component as a
whole. Once that is decided, every part of the component is brought into normal form on its own: no
part ends within an encoded octet, so what is behind it plays no role.

A part in normal form is decoded on its own as well, if text follows that was not left as it is.
Blanks are such text.

## Main definitions

* `Percent.normal` — the normal form, once it is decided about percent signs

## Main results

* `Percent.wellFormed_iff` — the percent signs are kept if each of them starts an encoded octet
* `Percent.normal_append`, `Percent.not_mem_normal` — parts and separators
* `Percent.decode_append_normal` — blanks behind a part are decoded as they were
-/

namespace HashConditions

open Text

namespace Authority

variable {allowed : Char → Bool} {text front back : List Char} {separator : Char}

/-! ### Encoded text and its parts -/

theorem Encoded.of_forall (h : Encoded (fun _ => true) text) (all : ∀ c ∈ text, allowed c = true) :
    Encoded allowed text := by
  induction h with
  | nil => exact .nil
  | char other _ _ ih =>
    rw [List.forall_mem_cons] at all
    exact .char other all.1 (ih all.2)
  | octet first second _ ih =>
    rw [List.forall_mem_cons, List.forall_mem_cons, List.forall_mem_cons] at all
    exact .octet first second (ih all.2.2.2)

theorem Encoded.append (hf : Encoded allowed front) (hb : Encoded allowed back) :
    Encoded allowed (front ++ back) := by
  induction hf with
  | nil => exact hb
  | char other allows _ ih => exact .char other allows ih
  | octet first second _ ih => exact .octet first second ih

/-- No encoded octet reaches over a separator. -/
theorem encoded_append_cons_iff (digit : isHexDigit separator = false) (percent : separator ≠ '%')
    (allows : allowed separator = true) :
    Encoded allowed (front ++ separator :: back) ↔
      Encoded allowed front ∧ Encoded allowed back := by
  constructor
  · intro h
    generalize whole : front ++ separator :: back = text at h
    induction h generalizing front with
    | nil => simp at whole
    | char other allows' h ih =>
      cases front with
      | nil =>
        cases whole
        exact ⟨.nil, h⟩
      | cons c front =>
        cases whole
        exact ⟨.char other allows' (ih rfl).1, (ih rfl).2⟩
    | octet first second h ih =>
      -- The separator is none of the three characters of the octet.
      have apart : ∀ c, isHexDigit c = true → separator ≠ c := by
        rintro c hc rfl
        exact absurd hc (Bool.eq_false_iff.mp digit)
      obtain _ | ⟨_, _ | ⟨_, _ | ⟨_, front⟩⟩⟩ := front
      · exact absurd (List.cons.inj whole).1 percent
      · exact absurd (List.cons.inj (List.cons.inj whole).2).1 (apart _ first)
      · exact absurd (List.cons.inj (List.cons.inj (List.cons.inj whole).2).2).1 (apart _ second)
      · cases whole
        exact ⟨.octet first second (ih rfl).1, (ih rfl).2⟩
  · rintro ⟨hf, hb⟩
    exact hf.append (.char percent allows hb)

end Authority

namespace Percent

open Authority

variable {allowed : Char → Bool} {text front back : List Char} {c separator : Char}
  {keepPercent : Bool}

theorem wellFormed_iff : wellFormed text = true ↔ Encoded (fun _ => true) text := by
  constructor
  · intro h
    induction text using wellFormed.induct with
    | case1 high low rest ih =>
      rw [wellFormed, Bool.and_eq_true, Bool.and_eq_true] at h
      exact .octet h.1.1 h.1.2 (ih h.2)
    | case2 c rest other ih =>
      rw [wellFormed, Bool.and_eq_true, bne_iff_ne] at h
      · exact .char h.1 rfl (ih h.2)
      · exact other
    | case3 => exact .nil
  · intro h
    induction h with
    | nil => rfl
    | char other _ _ ih =>
      rw [wellFormed, ih, Bool.and_true, bne_iff_ne]
      · exact other
      · rintro high low rest rfl
        exact absurd rfl other
    | octet first second _ ih => rw [wellFormed, first, second, ih]; rfl

/-! ### Characters that are encoded -/

theorem toNat_lt_of_isKept (h : isKept c = true) : c.toNat < 128 := by
  have marks : ∀ d ∈ "!$&'()*+,;=".toList ++ ":/?#[]@".toList, d.toNat < 128 :=
    forall_mem_of_all (by decide)
  have others : ∀ d, d = '-' ∨ d = '.' ∨ d = '_' ∨ d = '~' → d.toNat < 128 := by
    rintro d (rfl | rfl | rfl | rfl) <;> decide
  rw [isKept, isUnreserved, isSubDelimiter] at h
  simp only [Bool.or_eq_true, beq_iff_eq, List.contains_iff_mem] at h
  obtain (((((alphanumeric | mark) | mark) | mark) | mark) | mark) | mark := h
  · exact toNat_lt_of_isAlphanum alphanumeric
  · exact others c (.inl mark)
  · exact others c (.inr (.inl mark))
  · exact others c (.inr (.inr (.inl mark)))
  · exact others c (.inr (.inr (.inr mark)))
  · exact marks c (List.mem_append_left _ mark)
  · exact marks c (List.mem_append_right _ mark)

theorem ne_percent_of_isKept (h : isKept c = true) : c ≠ '%' := by
  rintro rfl
  exact absurd h (by decide)

/-- What holds for the hexadecimal digits among the first 128 characters holds for all of them. -/
theorem forall_of_isHexDigit {p : Char → Prop}
    (check : ∀ n < 128, isHexDigit (Char.ofNat n) = true → p (Char.ofNat n))
    (h : isHexDigit c = true) : p c := by
  have below : ∀ top : Char, top.toNat < 128 → c ≤ top → c.toNat < 128 := by
    intro top bound le
    exact Nat.lt_of_le_of_lt (UInt32.le_iff_toNat_le.mp le) bound
  have low : c.toNat < 128 := by
    rw [isHexDigit, hexValue?] at h
    split at h
    · next range => exact below '9' (by decide) range.2
    split at h
    · next range => exact below 'F' (by decide) range.2
    split at h
    · next range => exact below 'f' (by decide) range.2
    · cases h
  have found := check c.toNat low
  rw [Char.ofNat_toNat] at found
  exact found h

theorem isHexDigit_spec (h : isHexDigit c = true) :
    isKept c = true ∧ c ≠ '+' ∧ isHexDigit c.toUpper = true :=
  forall_of_isHexDigit (p := fun c => isKept c = true ∧ c ≠ '+' ∧ isHexDigit c.toUpper = true)
    (by decide) h

theorem isKept_of_isBlank (h : isBlank c = true) : isKept c = false := by
  have all : ∀ n < 128, isKept (Char.ofNat n) = true → isBlank (Char.ofNat n) = false := by decide
  by_contra kept
  rw [Bool.not_eq_false] at kept
  have visible := all c.toNat (toNat_lt_of_isKept kept)
  rw [Char.ofNat_toNat, h] at visible
  exact Bool.noConfusion (visible kept)

/-! ### Normal form -/

/-- A component in normal form, its percent signs being kept or not. -/
def normal (keepPercent : Bool) (text : List Char) : List Char :=
  capitalize (text.flatMap (encodeChar keepPercent))

theorem capitalize_encode (text : List Char) :
    capitalize (encode text) = normal (wellFormed text) text := rfl

theorem encodeChar_of_kept (h : isKept c = true) : encodeChar keepPercent c = [c] := by
  rw [encodeChar, h]
  rfl

theorem encodeChar_of_not_kept (other : c ≠ '%') (h : isKept c = false) :
    encodeChar keepPercent c = (String.utf8EncodeChar c).flatMap encodeOctet := by
  have encoded : ¬((isKept c || (keepPercent && c == '%')) = true) := by simp [h, other]
  rw [encodeChar, if_neg encoded]

theorem isHexDigit_hexDigit {n : Nat} (h : n < 16) : isHexDigit (hexDigit n) = true := by
  rw [isHexDigit, hexValue?_hexDigit h]
  rfl

theorem encodeOctet_eq (b : UInt8) : ∃ m n, m < 16 ∧ n < 16 ∧ b.toNat = m * 16 + n ∧
    encodeOctet b = ['%', hexDigit m, hexDigit n] := by
  have bound := b.toNat_lt
  exact ⟨b.toNat / 16, b.toNat % 16, by omega, by omega, by omega, rfl⟩

theorem encoded_flatMap_encodeOctet (bs : Bytes) : Encoded allowed (bs.flatMap encodeOctet) := by
  induction bs with
  | nil => exact .nil
  | cons b bs ih =>
    obtain ⟨m, n, hm, hn, -, digits⟩ := encodeOctet_eq b
    rw [List.flatMap_cons, digits]
    exact .octet (isHexDigit_hexDigit hm) (isHexDigit_hexDigit hn) ih

theorem encoded_encodeChar (other : c ≠ '%') (allows : allowed c = true) :
    Encoded allowed (encodeChar keepPercent c) := by
  cases kept : isKept c with
  | true =>
    rw [encodeChar_of_kept kept]
    exact .char other allows .nil
  | false =>
    rw [encodeChar_of_not_kept other kept]
    exact encoded_flatMap_encodeOctet _

theorem encoded_flatMap_encodeChar (formed : keepPercent = true → Encoded (fun _ => true) text)
    (all : ∀ c ∈ text, allowed c = true) :
    Encoded allowed (text.flatMap (encodeChar keepPercent)) := by
  cases keepPercent with
  | true =>
    have encoded := (formed rfl).of_forall all
    clear formed all
    induction encoded with
    | nil => exact .nil
    | char other allows _ ih =>
      rw [List.flatMap_cons]
      exact (encoded_encodeChar other allows).append ih
    | octet first second _ ih =>
      rw [List.flatMap_cons, List.flatMap_cons, List.flatMap_cons,
        encodeChar_of_kept (isHexDigit_spec first).1, encodeChar_of_kept (isHexDigit_spec second).1]
      exact .octet first second ih
  | false =>
    clear formed
    induction text with
    | nil => exact .nil
    | cons c text ih =>
      rw [List.forall_mem_cons] at all
      rw [List.flatMap_cons]
      refine Encoded.append ?_ (ih all.2)
      by_cases percent : c = '%'
      · subst percent
        exact encoded_flatMap_encodeOctet _
      · exact encoded_encodeChar percent all.1

theorem capitalize_cons (other : c ≠ '%') (text : List Char) :
    capitalize (c :: text) = c :: capitalize text := by
  rw [capitalize]
  rintro high low rest rfl
  exact absurd rfl other

theorem capitalize_append (h : Encoded allowed front) (back : List Char) :
    capitalize (front ++ back) = capitalize front ++ capitalize back := by
  induction h with
  | nil => rfl
  | char other _ _ ih =>
    rw [List.cons_append, capitalize_cons other, capitalize_cons other, ih]
    rfl
  | octet _ _ _ ih =>
    rw [List.cons_append, List.cons_append, List.cons_append, capitalize, capitalize, ih]
    rfl

theorem encoded_capitalize (h : Encoded allowed text) : Encoded allowed (capitalize text) := by
  induction h with
  | nil => exact .nil
  | char other allows _ ih =>
    rw [capitalize_cons other]
    exact .char other allows ih
  | octet first second _ ih =>
    rw [capitalize]
    exact .octet (isHexDigit_spec first).2.2 (isHexDigit_spec second).2.2 ih

theorem encoded_normal (formed : keepPercent = true → Encoded (fun _ => true) text)
    (all : ∀ c ∈ text, allowed c = true) : Encoded allowed (normal keepPercent text) :=
  encoded_capitalize (encoded_flatMap_encodeChar formed all)

/-- A part of a component is brought into normal form on its own. -/
theorem normal_append (formed : keepPercent = true → Encoded (fun _ => true) front)
    (back : List Char) :
    normal keepPercent (front ++ back) = normal keepPercent front ++ normal keepPercent back := by
  rw [normal, List.flatMap_append]
  exact capitalize_append (encoded_flatMap_encodeChar formed fun _ _ => rfl) _

theorem normal_cons (kept : isKept c = true) (text : List Char) :
    normal keepPercent (c :: text) = c :: normal keepPercent text := by
  rw [normal, List.flatMap_cons, encodeChar_of_kept kept, List.singleton_append,
    capitalize_cons (ne_percent_of_isKept kept)]
  rfl

/-- Separators that are no digits do not come up in normal form. -/
theorem not_mem_normal (digit : isHexDigit separator = false) (percent : separator ≠ '%')
    (formed : keepPercent = true → Encoded (fun _ => true) text) (absent : separator ∉ text) :
    separator ∉ normal keepPercent text :=
  (encoded_normal formed (forall_bne_of_not_mem absent)).not_mem percent digit
    (bne_self_eq_false separator)

theorem normal_of_plain (h : Plain text) : normal keepPercent text = text := by
  induction text with
  | nil => rfl
  | cons c text ih =>
    rw [Plain, List.forall_mem_cons] at h
    have kept := forall_of_isPlain (p := fun c => isKept c = true) (by decide) h.1
    rw [normal_cons kept, ih h.2]

/-! ### Decoding -/

theorem octets_cons (other : c ≠ '%') (text : List Char) :
    octets (c :: text) = String.utf8EncodeChar c ++ octets text := by
  rw [octets]
  rintro high low rest rfl
  exact absurd rfl other

theorem octets_append (h : Encoded allowed front) (back : List Char) :
    octets (front ++ back) = octets front ++ octets back := by
  induction h with
  | nil => rfl
  | char other _ _ ih =>
    rw [List.cons_append, octets_cons other, octets_cons other, ih, List.append_assoc]
  | octet first second _ ih =>
    obtain ⟨m, hm⟩ := Option.isSome_iff_exists.mp first
    obtain ⟨n, hn⟩ := Option.isSome_iff_exists.mp second
    rw [List.cons_append, List.cons_append, List.cons_append, octets, octets, ih]
    simp only [hm, hn]
    rfl

theorem octets_flatMap_encodeOctet (bs : Bytes) : octets (bs.flatMap encodeOctet) = bs := by
  induction bs with
  | nil => rfl
  | cons b bs ih =>
    obtain ⟨m, n, hm, hn, number, digits⟩ := encodeOctet_eq b
    rw [List.flatMap_cons, digits, List.cons_append, List.cons_append, List.cons_append,
      List.nil_append, octets]
    simp only [hexValue?_hexDigit hm, hexValue?_hexDigit hn, ih, ← number, UInt8.ofNat_toNat]

/-- A plus sign is none of the digits of an octet. -/
theorem encoded_map_space (h : Encoded (fun _ => true) text) :
    Encoded (fun _ => true) (text.map fun c => if c = '+' then ' ' else c) := by
  induction h with
  | nil => exact .nil
  | char other _ _ ih =>
    rw [List.map_cons]
    refine .char ?_ rfl ih
    split
    · decide
    · exact other
  | octet first second _ ih =>
    rw [List.map_cons, List.map_cons, List.map_cons, if_neg (isHexDigit_spec first).2.1,
      if_neg (isHexDigit_spec second).2.1, if_neg (by decide)]
    exact .octet first second ih

/-- Encoded octets behind a part are decoded together with its own octets. -/
theorem decode_append_octets (formed : Encoded (fun _ => true) front) (bs : Bytes) :
    decode (front ++ bs.flatMap encodeOctet) =
      decodeUtf8 (octets (front.map fun c => if c = '+' then ' ' else c) ++ bs) := by
  have nothing : Encoded (fun _ => false) (bs.flatMap encodeOctet) := encoded_flatMap_encodeOctet bs
  have plus : '+' ∉ bs.flatMap encodeOctet := nothing.not_mem (by decide) (by decide) rfl
  rw [decode, List.map_append, map_space_of_not_mem plus, octets_append (encoded_map_space formed),
    octets_flatMap_encodeOctet]

theorem capitalize_flatMap_encodeOctet (bs : Bytes) :
    capitalize (bs.flatMap encodeOctet) = bs.flatMap encodeOctet := by
  have capital : ∀ n < 16, (hexDigit n).toUpper = hexDigit n := by decide
  induction bs with
  | nil => rfl
  | cons b bs ih =>
    obtain ⟨m, n, hm, hn, -, digits⟩ := encodeOctet_eq b
    rw [List.flatMap_cons, digits, List.cons_append, List.cons_append, List.cons_append,
      List.nil_append, capitalize, capital m hm, capital n hn, ih]

theorem normal_of_not_kept (h : ∀ c ∈ text, c ≠ '%' ∧ isKept c = false) :
    normal keepPercent text = (encodeUtf8 text).flatMap encodeOctet := by
  have encoded : text.flatMap (encodeChar keepPercent) = (encodeUtf8 text).flatMap encodeOctet := by
    induction text with
    | nil => rfl
    | cons c text ih =>
      rw [List.forall_mem_cons] at h
      rw [List.flatMap_cons, encodeChar_of_not_kept h.1.1 h.1.2, ih h.2, encodeUtf8, encodeUtf8,
        List.flatMap_cons, List.flatMap_append]
  rw [normal, encoded, capitalize_flatMap_encodeOctet]

/-- Blanks behind a part are encoded, and decoded as they were. -/
theorem decode_append_normal (formed : Encoded (fun _ => true) front)
    (blank : ∀ c ∈ text, isBlank c = true) :
    decode (front ++ normal keepPercent text) = decode front ++ text := by
  have encoded : ∀ c ∈ text, c ≠ '%' ∧ isKept c = false := by
    intro c hc
    refine ⟨?_, isKept_of_isBlank (blank c hc)⟩
    rintro rfl
    exact absurd (blank '%' hc) (by decide)
  have alone := decode_append_octets formed []
  rw [List.flatMap_nil, List.append_nil, List.append_nil] at alone
  rw [normal_of_not_kept encoded, decode_append_octets formed, decodeUtf8_append, alone]

end Percent

end HashConditions
