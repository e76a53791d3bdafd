import HashConditions.Der.Choice
import HashConditions.Der.Lemmas

/-!
# What readers accept

A reader takes octets off the front of a cursor. `Cursor.Spans c bs d` says that `bs` is what was
taken on the way from `c` to `d`, so the contract of a reader is one equivalence: it gets from `c`
to `d` with a value exactly if what lies between them is what is written for that value. The two
directions of such an equivalence are that writing is undone by reading, whatever follows, and that
nothing but what is written is accepted.

Lengths that are read are below `256 ^ 4`, which is therefore the one condition besides.

## Main results

* `Cursor.spans_append` — a concatenation is taken off part by part
* `Region.element_eq_ok_iff`, `Region.choice_eq_ok_iff` — headers with a known tag
* `Region.readOctets_eq_ok_iff`, `Region.readInteger_eq_ok_iff` — whole elements
* `encodeElement_append_inj` — an element shows where it ends
-/

namespace HashConditions

theorem eq_error_or_ok {ε α : Type} (x : Except ε α) : (∃ e, x = .error e) ∨ ∃ a, x = .ok a := by
  cases x with
  | error e => exact .inl ⟨e, rfl⟩
  | ok a => exact .inr ⟨a, rfl⟩

theorem exists_ok_of_map_toOption {ε α β : Type} {x : Except ε α} {f : α → β} {b : β}
    (h : x.toOption.map f = some b) : ∃ a, x = .ok a ∧ f a = b := by
  cases x with
  | error e => exact nomatch h
  | ok a => exact ⟨a, rfl, Option.some.inj h⟩

/-- A chain of two steps gets through if both do. -/
theorem bind_eq_ok_iff {ε α β : Type} {x : Except ε α} {f : α → Except ε β} {b : β} :
    x >>= f = .ok b ↔ ∃ a, x = .ok a ∧ f a = .ok b := by
  cases x with
  | error e => simp [bind, Except.bind]
  | ok a => simp [bind, Except.bind]

theorem bind_eq_error_iff {ε α β : Type} {x : Except ε α} {f : α → Except ε β} {e : ε} :
    x >>= f = .error e ↔ x = .error e ∨ ∃ a, x = .ok a ∧ f a = .error e := by
  cases x with
  | error e' => simp [bind, Except.bind]
  | ok a => simp [bind, Except.bind]

theorem map_eq_ok_iff {ε α β : Type} {x : Except ε α} {f : α → β} {b : β} :
    x.map f = .ok b ↔ ∃ a, x = .ok a ∧ f a = b := by
  cases x with
  | error e => simp [Except.map]
  | ok a => simp [Except.map]

theorem mapError_eq_ok_iff {ε δ α : Type} {x : Except ε α} {f : ε → δ} {a : α} :
    x.mapError f = .ok a ↔ x = .ok a := by
  cases x with
  | error e =>
    constructor
    · intro h
      cases h
    · intro h
      cases h
  | ok b =>
    constructor
    · intro h
      cases h
      rfl
    · intro h
      cases h
      rfl

theorem mapError_eq_error_iff {ε δ α : Type} {x : Except ε α} {f : ε → δ} {e : δ} :
    x.mapError f = .error e ↔ ∃ why, x = .error why ∧ f why = e := by
  cases x with
  | error why =>
    constructor
    · intro h
      cases h
      exact ⟨why, rfl, rfl⟩
    · rintro ⟨_, h, rfl⟩
      cases h
      rfl
  | ok a =>
    constructor
    · intro h
      cases h
    · rintro ⟨_, h, -⟩
      cases h

namespace Der

/-! ### Octets between two cursors -/

namespace Cursor

/-- The octets `bs` lie between the first cursor and the second. -/
def Spans (c : Cursor) (bs : Bytes) (d : Cursor) : Prop :=
  c.rest = bs ++ d.rest ∧ d.offset = c.offset + bs.length

/-- The cursor at the end of the region. -/
def stop (c : Cursor) : Cursor :=
  ⟨c.offset + c.rest.length, []⟩

variable {c d e : Cursor} {bs as : Bytes}

theorem spans_nil : c.Spans [] d ↔ d = c := by
  obtain ⟨o, rest⟩ := c
  obtain ⟨p, after⟩ := d
  simp only [Spans, List.nil_append, List.length_nil, Nat.add_zero, mk.injEq]
  exact ⟨fun ⟨hr, ho⟩ => ⟨ho, hr.symm⟩, fun ⟨ho, hr⟩ => ⟨hr.symm, ho⟩⟩

/-- A concatenation is taken off part by part. -/
theorem spans_append : c.Spans (bs ++ as) e ↔ ∃ d, c.Spans bs d ∧ d.Spans as e := by
  constructor
  · intro ⟨hr, ho⟩
    refine ⟨⟨c.offset + bs.length, as ++ e.rest⟩, ⟨?_, rfl⟩, rfl, ?_⟩
    · rw [hr, List.append_assoc]
    · rw [ho, List.length_append, Nat.add_assoc]
  · rintro ⟨d, ⟨hr, ho⟩, hs, hp⟩
    refine ⟨?_, ?_⟩
    · rw [hr, hs, List.append_assoc]
    · rw [hp, ho, List.length_append, Nat.add_assoc]

theorem Spans.trans (hc : c.Spans bs d) (hd : d.Spans as e) : c.Spans (bs ++ as) e :=
  spans_append.mpr ⟨d, hc, hd⟩

/-- Everything that is left lies before the end. -/
theorem spans_stop (c : Cursor) : c.Spans c.rest c.stop :=
  ⟨(List.append_nil _).symm, rfl⟩

theorem spans_ofBytes (bs s : Bytes) : (ofBytes (bs ++ s)).Spans bs ⟨bs.length, s⟩ :=
  ⟨rfl, (Nat.zero_add _).symm⟩

theorem Spans.rest_eq (h : c.Spans bs d) (hd : d.rest = []) : c.rest = bs := by
  rw [h.1, hd, List.append_nil]

theorem Spans.upTo_eq (h : c.Spans bs d) : Region.upTo c d = bs := by
  obtain ⟨hr, ho⟩ := h
  have hl : ((d.offset : Int) - c.offset).toNat = bs.length := by omega
  rw [Region.upTo, contents_eq, within_eq, offset_eq, offset_eq, hl, hr, List.take_left]

end Cursor

open Region

/-! ### Tags -/

theorem constructedTag_short (t : ConditionType) :
    constructedTag t.code &&& 0x1F ≠ 0x1F := by
  cases t <;> decide

theorem toNat_constructedTag (t : ConditionType) :
    (constructedTag t.code).toNat = constructedClass + t.code := by
  cases t <;> rfl

/-- The tags that stand for a type are the constructed tags of the codes. -/
theorem typeOfTag?_eq_some_iff {tag : UInt8} {t : ConditionType} :
    typeOfTag? tag = some t ↔ tag = constructedTag t.code := by
  rw [typeOfTag?, ConditionType.ofCode?_eq_some_iff, ← UInt8.toNat_inj, toNat_constructedTag]
  omega

/-! ### Headers -/

variable {c d : Cursor} {tag : UInt8} {content : Bytes} {field : String}

/-- What is read as the next element is what lies between the cursor and the place behind it. -/
theorem spans_of_next {e : Element Cursor} (h : next c field = .ok e) :
    c.Spans (encodeElement e.tag e.inside.rest) e.after ∧
      e.inside.offset = c.offset + 1 + (encodeLength e.inside.rest.length).length ∧
      e.inside.rest.length < 256 ^ 4 := by
  obtain ⟨hr, hi, ha, hl, -⟩ := eq_encodeElement_of_next h
  exact ⟨⟨hr, ha⟩, hi, hl⟩

namespace Region

theorem atEnd_iff : atEnd c = true ↔ c.rest = [] := by
  rw [atEnd, decide_eq_true_eq, Cursor.size_eq, List.length_eq_zero_iff]

theorem peek_eq_ok_iff : peek c field = .ok tag ↔ c.rest.head? = some tag := by
  rw [peek, Cursor.first?_eq]
  cases c.rest.head? with
  | none => simp
  | some b => simp

/-- The header of an element is read if the element is there, and nothing else is. -/
theorem element_eq_ok_iff (short : tag &&& 0x1F ≠ 0x1F) {e : Element Cursor} :
    element c tag field = .ok e ↔
      e.tag = tag ∧ c.Spans (encodeElement tag e.inside.rest) e.after ∧
        e.inside.offset = c.offset + 1 + (encodeLength e.inside.rest.length).length ∧
        e.inside.rest.length < 256 ^ 4 := by
  constructor
  · intro h
    rw [element] at h
    split at h
    · simp at h
    · next found hpeek =>
      split at h
      · next heq =>
        obtain ⟨spans, inside, hl⟩ := spans_of_next h
        have first : c.rest.head? = some e.tag := by rw [spans.1]; rfl
        have tags : e.tag = tag := by
          rw [peek_eq_ok_iff, first] at hpeek
          rw [← heq, Option.some.inj hpeek]
        exact ⟨tags, tags ▸ spans, inside, hl⟩
      · simp at h
  · obtain ⟨o, rest⟩ := c
    obtain ⟨tag', ⟨p, content⟩, after⟩ := e
    rintro ⟨rfl, ⟨hr, ho⟩, hi, hl⟩
    simp only at hr ho hi hl
    subst hr hi
    have hpeek : peek (⟨o, encodeElement tag' content ++ after.rest⟩ : Cursor) field = .ok tag' :=
      peek_eq_ok_iff.mpr rfl
    rw [element, hpeek]
    simp only [if_pos, next_encodeElement o after.rest field short hl, ← ho]

/-- The element at a cursor, by its content and the place behind it. -/
theorem element_of_spans (short : tag &&& 0x1F ≠ 0x1F)
    (spans : c.Spans (encodeElement tag content) d) (hl : content.length < 256 ^ 4) :
    element c tag field =
      .ok ⟨tag, ⟨c.offset + 1 + (encodeLength content.length).length, content⟩, d⟩ :=
  (element_eq_ok_iff short).mpr ⟨rfl, spans, rfl, hl⟩

/-- The header of a condition or fulfillment is read if an element with the tag of its type is
there. -/
theorem choice_eq_ok_iff {kind : Announced} {found : Choice Cursor} :
    choice c kind = .ok found ↔
      found.start = c ∧
        c.Spans (encodeElement (constructedTag found.type.code) found.inside.rest) found.after ∧
        found.inside.offset = c.offset + 1 + (encodeLength found.inside.rest.length).length ∧
        found.inside.rest.length < 256 ^ 4 := by
  constructor
  · intro h
    rw [choice] at h
    split at h
    · simp at h
    · next tag hpeek =>
      split at h
      · simp at h
      · next type htype =>
        rw [typeOfTag?_eq_some_iff] at htype
        subst htype
        split at h
        · simp at h
        · next e he =>
          rw [element_eq_ok_iff (constructedTag_short type)] at he
          cases h
          exact ⟨rfl, he.2⟩
  · obtain ⟨type, start, inside, after⟩ := found
    rintro ⟨rfl, spans, hi, hl⟩
    have hpeek : peek start kind.field = .ok (constructedTag type.code) := by
      rw [peek_eq_ok_iff, spans.1]
      rfl
    have he : element start (constructedTag type.code) kind.field =
        .ok ⟨constructedTag type.code, inside, after⟩ :=
      (element_eq_ok_iff (constructedTag_short type)).mpr ⟨rfl, spans, hi, hl⟩
    rw [choice, hpeek]
    simp only [typeOfTag?_eq_some_iff.mpr rfl, he]

/-- The condition or fulfillment at a cursor, by its content and the place behind it. -/
theorem choice_of_spans {kind : Announced} {t : ConditionType}
    (spans : c.Spans (encodeElement (constructedTag t.code) content) d)
    (hl : content.length < 256 ^ 4) :
    choice c kind =
      .ok ⟨t, c, ⟨c.offset + 1 + (encodeLength content.length).length, content⟩, d⟩ :=
  choice_eq_ok_iff.mpr ⟨rfl, spans, rfl, hl⟩

/-! ### Whole elements -/

theorem value_eq_ok_iff {α : Type} {r : Der.Reading Cursor Malformed α} {a : α} :
    r.value = .ok (a, d) ↔ r = ⟨.ok a, d⟩ := by
  obtain ⟨result, after⟩ := r
  cases result with
  | error e => simp [Reading.value]
  | ok b => simp [Reading.value]

/-- A reading gets through if the element is there and its content makes a value. -/
theorem reading_eq_ok_iff {α β : Type} {found : Except Malformed β} {after : β → Cursor}
    {make : β → Except Malformed α} {a : α} :
    (reading c found after make).value = .ok (a, d) ↔
      ∃ b, found = .ok b ∧ make b = .ok a ∧ after b = d := by
  cases found with
  | error e => simp [reading, Reading.value]
  | ok b =>
    cases hb : make b with
    | error e => simp [reading, Reading.value, hb]
    | ok x => simp [reading, Reading.value, hb]

/-- The content of an element is read if the element is there, and nothing else is. -/
theorem readOctets_eq_ok_iff (short : tag &&& 0x1F ≠ 0x1F) :
    (readOctets c tag field).value = .ok (content, d) ↔
      c.Spans (encodeElement tag content) d ∧ content.length < 256 ^ 4 := by
  rw [readOctets, reading_eq_ok_iff]
  constructor
  · rintro ⟨e, he, hc, rfl⟩
    obtain ⟨-, spans, -, hl⟩ := (element_eq_ok_iff short).mp he
    cases hc
    exact ⟨spans, hl⟩
  · intro ⟨spans, hl⟩
    exact ⟨_, element_of_spans short spans hl, rfl, rfl⟩

/-- An integer is read if its element is there, with the one form that its content has. -/
theorem readInteger_eq_ok_iff (short : tag &&& 0x1F ≠ 0x1F) {n : Nat} :
    (readInteger c tag field).value = .ok (n, d) ↔
      c.Spans (encodeElement tag (encodeInteger n)) d ∧ (encodeInteger n).length < 256 ^ 4 := by
  rw [readInteger, reading_eq_ok_iff]
  constructor
  · rintro ⟨e, he, hn, rfl⟩
    obtain ⟨-, spans, -, hl⟩ := (element_eq_ok_iff short).mp he
    have hc : e.inside.rest = encodeInteger n :=
      decodeInteger_eq_ok_iff.mp (mapError_eq_ok_iff.mp hn)
    rw [hc] at spans hl
    exact ⟨spans, hl⟩
  · rintro ⟨spans, hl⟩
    have read : decodeInteger (encodeInteger n) = .ok n := decodeInteger_eq_ok_iff.mpr rfl
    exact ⟨_, element_of_spans short spans hl, mapError_eq_ok_iff.mpr read, rfl⟩

theorem finish_eq_ok_iff : finish c field = .ok () ↔ c.rest = [] := by
  rw [finish]
  split
  · next h => simp [atEnd_iff.mp h]
  · next h => simp [mt atEnd_iff.mpr h]

end Region

/-! ### Elements one after the other -/

theorem length_encodeElement (tag : UInt8) (content : Bytes) :
    (encodeElement tag content).length =
      1 + (encodeLength content.length).length + content.length := by
  rw [encodeElement, List.length_cons, List.length_append]
  omega

/-- An element is longer than its content. -/
theorem length_lt_length_encodeElement (tag : UInt8) (content : Bytes) :
    content.length < (encodeElement tag content).length := by
  rw [length_encodeElement]
  omega

theorem length_encodeElement_of_lt (tag : UInt8) {content : Bytes} (h : content.length < 128) :
    (encodeElement tag content).length = content.length + 2 := by
  rw [length_encodeElement, encodeLength, if_pos h, List.length_singleton]
  omega

theorem length_encodeLength_le (n : Nat) : (encodeLength n).length ≤ n + 1 := by
  have digits : octetLength n ≤ n := octetLength_le_iff.mpr (Nat.lt_pow_self (by decide))
  rw [encodeLength]
  split
  · exact Nat.le_add_left _ _
  · rw [List.length_cons, Bytes.length_ofNat]
    omega

theorem length_encodeElement_le (tag : UInt8) (content : Bytes) :
    (encodeElement tag content).length ≤ 2 * content.length + 2 := by
  have := length_encodeLength_le content.length
  rw [length_encodeElement]
  omega

theorem length_encodeInteger_le {n : Nat} (h : n ≤ maxQuantity) : (encodeInteger n).length ≤ 8 := by
  have bits : bitLength n ≤ 63 := bitLength_le_iff.mpr (Nat.lt_succ_of_le h)
  rw [encodeInteger, Bytes.length_ofNat]
  omega

theorem toNat_head?_encodeLength_append {n : Nat} (h : n < 256 ^ 127) (s : Bytes) :
    (encodeLength n ++ s).head?.map UInt8.toNat =
      some (if n < 128 then n else 128 + octetLength n) := by
  rw [encodeLength]
  split
  · next lt =>
    rw [List.singleton_append, List.head?_cons, Option.map_some, UInt8.toNat_ofNat',
      Nat.mod_eq_of_lt (by omega)]
  · have digits : octetLength n < 128 := Nat.lt_succ_of_le (octetLength_le_iff.mpr h)
    rw [List.cons_append, List.head?_cons, Option.map_some, toNat_or_128 digits]

/-- A length shows where it ends. Its first octet counts the others, up to 127 of them. -/
theorem encodeLength_append_inj {m n : Nat} {s t : Bytes} (hm : m < 256 ^ 127) (hn : n < 256 ^ 127)
    (h : encodeLength m ++ s = encodeLength n ++ t) : m = n ∧ s = t := by
  have first := toNat_head?_encodeLength_append hm s
  rw [h, toNat_head?_encodeLength_append hn, Option.some.injEq] at first
  rw [encodeLength, encodeLength] at h
  split at first
  · split at first
    · subst first
      exact ⟨rfl, List.append_cancel_left h⟩
    · omega
  · next long =>
    split at first
    · omega
    · next long' =>
      rw [if_neg long, if_neg long'] at h
      have width : octetLength m = octetLength n := (Nat.add_left_cancel first).symm
      have lengths : (Bytes.ofNat (octetLength m) m).length =
          (Bytes.ofNat (octetLength n) n).length := by
        rw [Bytes.length_ofNat, Bytes.length_ofNat, width]
      obtain ⟨digits, rest⟩ := List.append_inj (List.cons.inj h).2 lengths
      have numbers := congrArg Bytes.toNat digits
      rw [Bytes.toNat_ofNat_of_lt (lt_pow_octetLength m),
        Bytes.toNat_ofNat_of_lt (lt_pow_octetLength n)] at numbers
      exact ⟨numbers, rest⟩

/-- An element shows where it ends, so what follows is determined as well. -/
theorem encodeElement_append_inj {as bs s t : Bytes} (ha : as.length < 256 ^ 127)
    (hb : bs.length < 256 ^ 127) (h : encodeElement tag as ++ s = encodeElement tag bs ++ t) :
    as = bs ∧ s = t := by
  rw [encodeElement, encodeElement, List.cons_append, List.cons_append, List.append_assoc,
    List.append_assoc] at h
  obtain ⟨lengths, rest⟩ := encodeLength_append_inj ha hb (List.cons.inj h).2
  exact List.append_inj rest lengths

theorem encodeElement_inj {as bs : Bytes} (ha : as.length < 256 ^ 127)
    (hb : bs.length < 256 ^ 127) (h : encodeElement tag as = encodeElement tag bs) : as = bs :=
  (encodeElement_append_inj (s := []) (t := []) ha hb (by rw [h])).1

end Der

end HashConditions
