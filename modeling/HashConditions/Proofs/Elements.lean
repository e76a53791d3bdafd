import HashConditions.Proofs.Sessions

/-!
# Elements are read as they are written

An element of any tag is read from the front of a region exactly if it stands there as it is
written, and the octets that reading takes off are the octets of that element. So a tag and a
content have one form in front of whatever follows: a length in another form than its shortest one
is refused, and so is one of more than four octets.

Two conditions are on what is written. A tag whose five low bits are all set would go on in the next
octet, and a content of `2 ^ 32` octets has a length of five. `Cursor.Spans` says that octets were
taken off a cursor, and here it comes down to a prefix of the octets ahead (`Cursor.spans_iff`).

## Main results

* `Region.readAny_eq_ok_iff` — elements at a cursor
* `Window.readAny_result_eq_ok_iff` — elements in a window of a string
* `Window.reads_exactly_encodeElement` — both directions, with the places before and behind
-/

namespace HashConditions

namespace Der

open Region

variable {tag : UInt8} {content bs : Bytes} {field : String}

/-! ### Elements at a cursor -/

/-- What lies between two cursors stands in front of what is ahead of the first. -/
theorem Cursor.spans_iff {c d : Cursor} :
    c.Spans bs d ↔ bs <+: c.rest ∧ d = Region.skip c bs.length := by
  obtain ⟨o, rest⟩ := c
  obtain ⟨p, behind⟩ := d
  simp only [Spans, skip_eq, mk.injEq]
  constructor
  · rintro ⟨rfl, rfl⟩
    exact ⟨List.prefix_append _ _, rfl, List.drop_left.symm⟩
  · rintro ⟨⟨behind, rfl⟩, rfl, rfl⟩
    rw [List.drop_left]
    exact ⟨rfl, rfl⟩

/-- An element is read if it lies ahead as it is written, and nothing else is. -/
theorem Region.readAny_eq_ok_iff {c d : Cursor} :
    (readAny c field).value = .ok ((tag, content), d) ↔
      tag &&& 0x1F ≠ 0x1F ∧ content.length < 256 ^ 4 ∧ c.Spans (encodeElement tag content) d := by
  rw [readAny, reading_eq_ok_iff]
  constructor
  · rintro ⟨e, found, made, rfl⟩
    obtain ⟨rest, -, after, length, short⟩ := eq_encodeElement_of_next found
    cases made
    exact ⟨short, length, rest, after⟩
  · obtain ⟨o, rest⟩ := c
    obtain ⟨p, behind⟩ := d
    rintro ⟨short, length, rest, after⟩
    simp only at rest after
    subst rest after
    exact ⟨_, next_encodeElement o behind field short length, rfl, rfl⟩

/-! ### Elements in a window of a string -/

namespace Window

variable {w : Window}

theorem readAny_eq (h : w.Inside) (field : String) :
    readAny w field = ⟨(readAny w.cursor field).result.mapError .malformed,
      ofCursor w.data (readAny w.cursor field).after⟩ :=
  reading_eq_of_like ((corresponds_cursor w.data).like_readAny ⟨rfl, h, rfl⟩ field)

theorem readAny_cursor (h : w.Inside) (short : tag &&& 0x1F ≠ 0x1F)
    (length : content.length < 256 ^ 4) (ahead : encodeElement tag content <+: w.contents) :
    readAny w.cursor field =
      ⟨.ok (tag, content), Region.skip w.cursor (encodeElement tag content).length⟩ := by
  rw [contents_eq_rest h] at ahead
  exact value_eq_ok_iff.mp
    (readAny_eq_ok_iff.mpr ⟨short, length, Cursor.spans_iff.mpr ⟨ahead, rfl⟩⟩)

/-- An element is read in a window if the octets of the window start with it. -/
theorem readAny_result_eq_ok_iff (h : w.Inside) :
    (readAny w field).result = .ok (tag, content) ↔
      tag &&& 0x1F ≠ 0x1F ∧ content.length < 256 ^ 4 ∧
        encodeElement tag content <+: w.contents := by
  rw [readAny_eq h, mapError_eq_ok_iff]
  constructor
  · intro found
    have value : (readAny w.cursor field).value =
        .ok ((tag, content), (readAny w.cursor field).after) := by
      rw [Reading.value, found]
    obtain ⟨short, length, spans⟩ := readAny_eq_ok_iff.mp value
    rw [contents_eq_rest h]
    exact ⟨short, length, (Cursor.spans_iff.mp spans).1⟩
  · rintro ⟨short, length, ahead⟩
    rw [readAny_cursor h short length ahead]

/-- What the octets of a window start with fits into the window. -/
theorem length_le_size {bs : Bytes} (h : w.Inside) (ahead : bs <+: w.contents) :
    bs.length ≤ w.size := by
  rw [size_eq_length h, ← contents_eq_rest h]
  exact ahead.length_le

/-- The octets in front of a place in a window. -/
theorem contents_within {n : Nat} (h : w.Inside) (le : n ≤ w.size) :
    (Region.within w n).contents = w.contents.take n := by
  rw [contents_eq_rest (h.within le), contents_eq_rest h, cursor_within h le]
  rfl

/-- Reading goes on right behind the element that was read. -/
theorem readAny_of_result (h : w.Inside) (found : (readAny w field).result = .ok (tag, content)) :
    readAny w field =
      ⟨.ok (tag, content), Region.skip w (encodeElement tag content).length⟩ := by
  obtain ⟨short, length, ahead⟩ := (readAny_result_eq_ok_iff h).mp found
  have place : At w.data (Region.skip w (encodeElement tag content).length) _ :=
    ⟨rfl, h.skip (length_le_size h ahead), rfl⟩
  rw [readAny_eq h, readAny_cursor h short length ahead, ← cursor_skip h, ofCursor, ← place.eq]
  rfl

/-- An element is read back from the front of a string, and what follows it is left. -/
theorem readAny_ofBytes (short : tag &&& 0x1F ≠ 0x1F) (length : content.length < 256 ^ 4)
    (s : Bytes) (field : String) :
    readAny (ofBytes (encodeElement tag content ++ s)) field =
      ⟨.ok (tag, content), ⟨encodeElement tag content ++ s,
        (encodeElement tag content).length, (encodeElement tag content ++ s).length⟩⟩ := by
  have inside := inside_ofBytes (encodeElement tag content ++ s)
  have ahead : encodeElement tag content <+:
      (ofBytes (encodeElement tag content ++ s)).contents := by
    rw [contents_eq_rest inside, cursor_ofBytes]
    exact List.prefix_append _ _
  have found : (readAny (ofBytes (encodeElement tag content ++ s)) field).result =
      .ok (tag, content) :=
    (readAny_result_eq_ok_iff inside).mpr ⟨short, length, ahead⟩
  rw [readAny_of_result inside found]
  simp only [Region.skip, ofBytes, Int.zero_add]

/-- The octets in front of the place where reading goes on are the element that was read. -/
theorem contents_of_readAny (h : w.Inside)
    (found : (readAny w field).result = .ok (tag, content)) :
    (readAny w field).after.Inside ∧
      (readAny w field).after =
        { w with offset := w.offset + (encodeElement tag content).length } ∧
      { w with stop := (readAny w field).after.offset }.contents = encodeElement tag content := by
  obtain ⟨-, -, ahead⟩ := (readAny_result_eq_ok_iff h).mp found
  have fit := length_le_size h ahead
  rw [readAny_of_result h found]
  refine ⟨h.skip fit, rfl, ?_⟩
  show (Region.within w (encodeElement tag content).length).contents = _
  rw [contents_within h fit]
  exact (List.prefix_iff_eq_take.mp ahead).symm

theorem encodeElement?_toNat (tag : UInt8) (content : Bytes) :
    encodeElement? tag.toNat content = .ok (encodeElement tag content) := by
  have octet : (0 : Int) ≤ tag.toNat ∧ (tag.toNat : Int) < 256 := by
    have := tag.toNat_lt
    omega
  rw [encodeElement?, if_pos octet, Int.toNat_natCast, UInt8.ofNat_toNat]

/-- **Elements are read exactly as written.** An element is read back from the front of any octets,
and the octets behind it are left. In a window of a string, an element is read if and only if the
octets of the window start with it; and then the octets from the old place to the new one are that
element. -/
theorem reads_exactly_encodeElement (field : String) :
    (∀ (tag : UInt8) (content s : Bytes), tag &&& 0x1F ≠ 0x1F → content.length < 2 ^ 32 →
        encodeElement? tag.toNat content = .ok (encodeElement tag content) ∧
          readAny (ofBytes (encodeElement tag content ++ s)) field =
            ⟨.ok (tag, content), ⟨encodeElement tag content ++ s,
              (encodeElement tag content).length, (encodeElement tag content ++ s).length⟩⟩) ∧
      ∀ (w : Window) (tag : UInt8) (content : Bytes), w.Inside →
        ((readAny w field).result = .ok (tag, content) ↔
          tag &&& 0x1F ≠ 0x1F ∧ content.length < 2 ^ 32 ∧
            encodeElement tag content <+: w.contents) ∧
        ((readAny w field).result = .ok (tag, content) →
          (readAny w field).after.Inside ∧
            (readAny w field).after =
              { w with offset := w.offset + (encodeElement tag content).length } ∧
            { w with stop := (readAny w field).after.offset }.contents =
              encodeElement tag content) := by
  have bound : (2 ^ 32 : Nat) = 256 ^ 4 := by decide
  rw [bound]
  constructor
  · intro tag content s short length
    exact ⟨encodeElement?_toNat tag content, readAny_ofBytes short length s field⟩
  · intro w tag content inside
    exact ⟨readAny_result_eq_ok_iff inside, contents_of_readAny inside⟩

/-- The shortest content whose length is not one octet, in front of one more octet. -/
theorem reads_exactly_encodeElement_long :
    (encodeElement 0x30 (List.replicate 128 0)).take 3 = [0x30, 0x81, 0x80] ∧
      readAny (ofBytes (encodeElement 0x30 (List.replicate 128 0) ++ [7])) "content" =
        ⟨.ok (0x30, List.replicate 128 0),
          ⟨encodeElement 0x30 (List.replicate 128 0) ++ [7],
            (encodeElement 0x30 (List.replicate 128 0)).length,
            (encodeElement 0x30 (List.replicate 128 0) ++ [7]).length⟩⟩ ∧
      { ofBytes (encodeElement 0x30 (List.replicate 128 0) ++ [7]) with
          stop := (encodeElement 0x30 (List.replicate 128 0)).length }.contents =
        encodeElement 0x30 (List.replicate 128 0) := by
  have short : (List.replicate 128 (0 : UInt8)).length < 2 ^ 32 := by
    rw [List.length_replicate]
    decide
  obtain ⟨written, read⟩ := reads_exactly_encodeElement "content"
  obtain ⟨-, found⟩ := written 0x30 (List.replicate 128 0) [7] (by decide) short
  obtain ⟨-, taken⟩ := read _ 0x30 (List.replicate 128 0) (inside_ofBytes _)
  obtain ⟨-, -, octets⟩ := taken (congrArg Reading.result found)
  rw [found] at octets
  refine ⟨?_, found, octets⟩
  rw [encodeElement, encodeLength, List.length_replicate]
  rfl

end Window

end Der

end HashConditions
