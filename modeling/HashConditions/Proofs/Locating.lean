import HashConditions.Proofs.FulfillmentCodec
import HashConditions.Proofs.WindowReading

/-!
# Failures say where

Reading a malformed string fails with a cause, the name of a part and a position. The name is one
of those in `Malformed.parts`, and the position lies in the region that is read, its end included
(`Cursor.Locates`). A reader goes on only to regions inside its own (`Cursor.LiesIn`), and a
position in one of them is a position in the region around it, so the law goes up from the headers
to the whole string.

An octet that is not there is never asked for. A window of two positions in a string could miss
one, but windows in their strings are read like cursors, so reading in the window of a whole string
fails in no other way (`Region.whole_window`).

## Main results

* `Region.locates_of_choice`, `Region.locates_of_setOf` — headers and sets
* `Condition.locates_of_ofChoice`, `Fulfillment.locates_of_ofChoice` — contents
* `decode_located` — whole strings
-/

namespace HashConditions

/-- The names of the parts of an encoding. -/
def Malformed.parts : List String :=
  ["condition", "fulfillment", "fingerprint", "cost", "subtypes", "preimage", "prefix",
    "max_message_length", "subfulfillment", "subfulfillments", "subconditions", "modulus",
    "signature", "public_key"] ++ ConditionType.all.map ConditionType.name

theorem Malformed.name_mem_parts (t : ConditionType) : t.name ∈ parts :=
  List.mem_append_right _ (List.mem_map_of_mem (ConditionType.mem_all t))

/-- The failure names a part of an encoding, and a position in the string or its end. -/
def Malformed.LocatedIn (e : Malformed) (bs : Bytes) : Prop :=
  e.field ∈ parts ∧ 0 ≤ e.offset ∧ e.offset ≤ bs.length

namespace Der

open Malformed (parts)

/-! ### Regions inside a region -/

namespace Cursor

variable {c d r : Cursor} {bs : Bytes} {n : Nat} {e : Malformed} {field : String}

theorem stop_offset (c : Cursor) : c.stop.offset = c.offset + c.rest.length := rfl

/-- The first region lies in the second. -/
def LiesIn (d c : Cursor) : Prop :=
  c.offset ≤ d.offset ∧ d.stop.offset ≤ c.stop.offset

theorem LiesIn.refl (c : Cursor) : c.LiesIn c :=
  ⟨Nat.le_refl _, Nat.le_refl _⟩

theorem LiesIn.trans (h : r.LiesIn d) (hd : d.LiesIn c) : r.LiesIn c :=
  ⟨Nat.le_trans hd.1 h.1, Nat.le_trans h.2 hd.2⟩

theorem Spans.liesIn (h : c.Spans bs d) : d.LiesIn c := by
  obtain ⟨rest, offset⟩ := h
  rw [LiesIn, stop_offset, stop_offset, rest, offset, List.length_append]
  exact ⟨Nat.le_add_right _ _, by omega⟩

theorem liesIn_skip (h : n ≤ c.rest.length) : (Region.skip c n).LiesIn c := by
  rw [LiesIn, stop_offset, stop_offset, skip_eq, List.length_drop]
  simp only
  exact ⟨Nat.le_add_right _ _, by omega⟩

/-- A failure names a part, and a position in a region or at its end. -/
structure Locates (c : Cursor) (e : Malformed) : Prop where
  named : e.field ∈ parts
  le : (c.offset : Int) ≤ e.offset
  le_stop : e.offset ≤ c.stop.offset

theorem locates_fail (c : Cursor) (fault : Malformed.Fault) (part : field ∈ parts) :
    c.Locates (Region.fail c fault field) := by
  rw [fail_eq]
  refine ⟨part, Int.le_refl _, ?_⟩
  rw [stop_offset]
  simp only
  omega

/-- A position in a region is a position in every region around it. -/
theorem Locates.of_liesIn (h : d.Locates e) (hd : d.LiesIn c) : c.Locates e := by
  obtain ⟨named, le, le_stop⟩ := h
  obtain ⟨start, stop⟩ := hd
  exact ⟨named, by omega, by omega⟩

end Cursor

namespace Region

variable {c d : Cursor} {tag : UInt8} {n : Nat} {field : String} {e : Malformed}

theorem next_of_element {el : Element Cursor} (h : element c tag field = .ok el) :
    next c field = .ok el := by
  rw [element] at h
  split at h
  · cases h
  · split at h
    · exact h
    · cases h

/-- Both the content of an element and what follows it lie in the region. -/
theorem liesIn_of_next {el : Element Cursor} (h : next c field = .ok el) :
    el.inside.LiesIn c ∧ el.after.LiesIn c := by
  obtain ⟨spans, inside, -⟩ := spans_of_next h
  have after := spans.liesIn
  obtain ⟨rest, -⟩ := spans
  refine ⟨?_, after⟩
  rw [Cursor.LiesIn, Cursor.stop_offset, Cursor.stop_offset, rest, inside, List.length_append,
    length_encodeElement]
  exact ⟨by omega, by omega⟩

theorem liesIn_of_element {el : Element Cursor} (h : element c tag field = .ok el) :
    el.inside.LiesIn c ∧ el.after.LiesIn c :=
  liesIn_of_next (next_of_element h)

theorem liesIn_of_choice {kind : Announced} {found : Choice Cursor}
    (h : choice c kind = .ok found) :
    found.start = c ∧ found.inside.LiesIn c ∧ found.after.LiesIn c := by
  rw [choice] at h
  split at h
  · cases h
  · split at h
    · cases h
    · split at h
      · cases h
      · next el hel =>
        cases h
        exact ⟨rfl, liesIn_of_element hel⟩

/-- What is left after a reading lies in the region. -/
theorem liesIn_of_reading {α : Type} {make : Element Cursor → Except Malformed α} {a : α}
    (h : (reading c (element c tag field) Element.after make).value = .ok (a, d)) :
    d.LiesIn c := by
  obtain ⟨el, hel, -, rfl⟩ := reading_eq_ok_iff.mp h
  exact (liesIn_of_element hel).2

/-! ### Headers -/

variable (part : field ∈ parts)

include part

theorem locates_of_peek (h : peek c field = .error e) : c.Locates e := by
  rw [peek, Cursor.first?_eq] at h
  split at h
  · next heq => cases heq
  · cases h
    exact Cursor.locates_fail c _ part
  · cases h

theorem locates_of_longLength {count : Nat} (h : longLength c count field = .error e) :
    c.Locates e := by
  rw [longLength] at h
  split at h
  · rw [Cursor.within_eq, Cursor.digits_eq] at h
    simp only at h
    split at h
    · cases h
      exact Cursor.locates_fail c _ part
    · cases h
  · cases h
    exact Cursor.locates_fail c _ part

theorem locates_of_length (h : length c field = .error e) : c.Locates e := by
  rw [length] at h
  split at h
  · next heq => cases heq
  · cases h
    exact Cursor.locates_fail c _ part
  · next first heq =>
    split at h
    · cases h
    · split at h
      · cases h
        exact Cursor.locates_fail c _ part
      · split at h
        · cases h
          exact Cursor.locates_fail c _ part
        · exact (locates_of_longLength part h).of_liesIn (Cursor.liesIn_skip (size_pos heq))

theorem locates_of_next (h : next c field = .error e) : c.Locates e := by
  rw [next] at h
  split at h
  · next e' hpeek =>
    cases h
    exact locates_of_peek part hpeek
  · next tag hpeek =>
    have more := Cursor.liesIn_skip (size_pos_of_peek hpeek)
    split at h
    · cases h
      exact Cursor.locates_fail c _ part
    · split at h
      · next e' hlength =>
        cases h
        exact (locates_of_length part hlength).of_liesIn more
      · next n body hlength =>
        obtain ⟨rest, offset, -⟩ := eq_encodeLength_of_length hlength
        have inside := Cursor.Spans.liesIn ⟨rest, offset⟩
        rw [close] at h
        split at h
        · cases h
        · cases h
          exact ((Cursor.locates_fail body _ part).of_liesIn inside).of_liesIn more

theorem locates_of_element (h : element c tag field = .error e) : c.Locates e := by
  rw [element] at h
  split at h
  · next e' hpeek =>
    cases h
    exact locates_of_peek part hpeek
  · split at h
    · exact locates_of_next part h
    · cases h
      exact Cursor.locates_fail c _ part

omit part in
theorem locates_of_choice {kind : Announced} (h : choice c kind = .error e) : c.Locates e := by
  have part : kind.field ∈ parts := by
    cases kind with
    | condition => decide
    | fulfillment => decide
  rw [choice] at h
  split at h
  · next e' hpeek =>
    cases h
    exact locates_of_peek part hpeek
  · split at h
    · cases h
      exact Cursor.locates_fail c _ part
    · split at h
      · next e' hel =>
        cases h
        exact locates_of_element part hel
      · cases h

/-! ### Whole elements -/

omit part in
theorem reading_eq_error_iff {α β : Type} {found : Except Malformed β} {after : β → Cursor}
    {make : β → Except Malformed α} :
    (reading c found after make).value = .error e ↔
      found = .error e ∨ ∃ b, found = .ok b ∧ make b = .error e := by
  cases found with
  | error e' => simp [reading, Reading.value]
  | ok b =>
    cases hb : make b with
    | error e' => simp [reading, Reading.value, hb]
    | ok a => simp [reading, Reading.value, hb]

theorem locates_of_readOctets (h : (readOctets c tag field).value = .error e) : c.Locates e := by
  obtain hel | ⟨el, -, hmake⟩ := reading_eq_error_iff.mp h
  · exact locates_of_element part hel
  · cases hmake

theorem locates_of_readInteger (h : (readInteger c tag field).value = .error e) : c.Locates e := by
  obtain hel | ⟨el, -, hmake⟩ := reading_eq_error_iff.mp h
  · exact locates_of_element part hel
  · obtain ⟨fault, -, rfl⟩ := mapError_eq_error_iff.mp hmake
    exact Cursor.locates_fail c _ part

theorem locates_of_finish (h : finish c field = .error e) : c.Locates e := by
  rw [finish] at h
  split at h
  · cases h
  · cases h
    exact Cursor.locates_fail c _ part

/-! ### Sets -/

/-- A set is located if each of its elements is. -/
theorem locates_of_setOf {α : Type} {kind : Announced}
    {make : (found : Choice Cursor) → size found.inside < n → Except Malformed α}
    (hmake : ∀ found smaller e, found.inside.LiesIn found.start →
      make found smaller = .error e → found.start.Locates e)
    {hc : size c ≤ n} {previous : Bytes} (h : setOf kind field n make c hc previous = .error e) :
    c.Locates e := by
  -- Each round leaves a smaller region, so the induction is on the size.
  induction hs : size c using Nat.strongRecOn generalizing c previous with
  | ind s ih =>
  subst hs
  by_cases more : atEnd c = true
  · rw [setOf_of_atEnd more] at h
    cases h
  · rcases eq_error_or_ok (choice c kind) with ⟨e', he⟩ | ⟨found, hfound⟩
    · rw [setOf_of_error more he] at h
      cases h
      exact locates_of_choice he
    · obtain ⟨start, inside, after⟩ := liesIn_of_choice hfound
      rw [setOf_of_choice more hfound] at h
      obtain hvalue | ⟨value, -, h⟩ := bind_eq_error_iff.mp h
      · rw [← start] at inside ⊢
        exact hmake found _ e inside hvalue
      · split at h
        · rcases hrest : setOf kind field n make found.after _ _ with e' | values
          · rw [hrest] at h
            cases h
            exact (ih _ (size_of_choice hfound).2 hrest rfl).of_liesIn after
          · rw [hrest] at h
            cases h
        · cases h
          exact Cursor.locates_fail c _ part

end Region

end Der

open Der Region

/-! ### Conditions -/

namespace Condition

variable {c : Cursor} {found : Choice Cursor} {e : Malformed}

theorem locates_of_readSubtypes {type : ConditionType} (h : readSubtypes type c = .error e) :
    c.Locates e := by
  have part : "subtypes" ∈ Malformed.parts := by decide
  rw [readSubtypes] at h
  split at h
  · split at h
    · next e' hel =>
      cases h
      exact locates_of_element part hel
    · split at h
      · cases h
        exact Cursor.locates_fail c _ part
      · cases h
  · cases h

theorem liesIn_of_readSubtypes {type : ConditionType} {subtypes : Option TypeSet} {d : Cursor}
    (h : readSubtypes type c = .ok (subtypes, d)) : d.LiesIn c :=
  (readSubtypes_eq_ok_iff.mp h).2.liesIn

/-- What is wrong with the content of a condition is located in its element. -/
theorem locates_of_ofChoice (inside : found.inside.LiesIn found.start)
    (h : ofChoice found = .error e) : found.start.Locates e := by
  rw [ofChoice] at h
  obtain h₁ | ⟨⟨fingerprint, c₁⟩, h₁, h⟩ := bind_eq_error_iff.mp h
  · exact (locates_of_readOctets (by decide) h₁).of_liesIn inside
  simp only at h
  split at h
  · have in₁ := (liesIn_of_reading h₁).trans inside
    obtain h₂ | ⟨⟨cost, c₂⟩, h₂, h⟩ := bind_eq_error_iff.mp h
    · exact (locates_of_readInteger (by decide) h₂).of_liesIn in₁
    have in₂ := (liesIn_of_reading h₂).trans in₁
    obtain h₃ | ⟨⟨subtypes, c₃⟩, h₃, h⟩ := bind_eq_error_iff.mp h
    · exact (locates_of_readSubtypes h₃).of_liesIn in₂
    have in₃ := (liesIn_of_readSubtypes h₃).trans in₂
    obtain h₄ | ⟨⟨⟩, -, h⟩ := bind_eq_error_iff.mp h
    · exact (locates_of_finish (by decide) h₄).of_liesIn in₃
    split at h
    · cases h
    · cases h
      exact Cursor.locates_fail _ _ (by decide)
  · cases h
    exact (Cursor.locates_fail _ _ (by decide)).of_liesIn inside

theorem locates_of_read (h : (read c).value = .error e) : c.Locates e := by
  obtain hchoice | ⟨found, hfound, hmade⟩ := reading_eq_error_iff.mp h
  · exact locates_of_choice hchoice
  · obtain ⟨rfl, inside, -⟩ := liesIn_of_choice hfound
    exact locates_of_ofChoice inside hmade

end Condition

/-! ### Fulfillments -/

namespace Fulfillment

variable {c : Cursor} {found : Choice Cursor} {e : Malformed}

theorem locates_of_conclude {built : Except Invalid Fulfillment} (inside : c.LiesIn found.start)
    (h : conclude found c built = .error e) : found.start.Locates e := by
  have part := Malformed.name_mem_parts found.type
  cases built with
  | error why =>
    cases h
    exact Cursor.locates_fail _ _ part
  | ok f =>
    rw [conclude] at h
    split at h
    · next e' hfinish =>
      cases h
      exact (locates_of_finish part hfinish).of_liesIn inside
    · cases h

section Parts

variable (inside : found.inside.LiesIn found.start)

include inside

theorem locates_of_readPreimage (h : readPreimage found = .error e) : found.start.Locates e := by
  obtain h₁ | ⟨⟨bs, c₁⟩, h₁, h⟩ := bind_eq_error_iff.mp h
  · exact (locates_of_readOctets (by decide) h₁).of_liesIn inside
  · exact locates_of_conclude ((liesIn_of_reading h₁).trans inside) h

theorem locates_of_readRsa (h : readRsa found = .error e) : found.start.Locates e := by
  obtain h₁ | ⟨⟨modulus, c₁⟩, h₁, h⟩ := bind_eq_error_iff.mp h
  · exact (locates_of_readOctets (by decide) h₁).of_liesIn inside
  simp only at h
  split at h
  · cases h
    exact (Cursor.locates_fail _ _ (by decide)).of_liesIn inside
  · have in₁ := (liesIn_of_reading h₁).trans inside
    obtain h₂ | ⟨⟨signature, c₂⟩, h₂, h⟩ := bind_eq_error_iff.mp h
    · exact (locates_of_readOctets (by decide) h₂).of_liesIn in₁
    · exact locates_of_conclude ((liesIn_of_reading h₂).trans in₁) h

theorem locates_of_readEd25519 (h : readEd25519 found = .error e) : found.start.Locates e := by
  obtain h₁ | ⟨⟨publicKey, c₁⟩, h₁, h⟩ := bind_eq_error_iff.mp h
  · exact (locates_of_readOctets (by decide) h₁).of_liesIn inside
  have in₁ := (liesIn_of_reading h₁).trans inside
  obtain h₂ | ⟨⟨signature, c₂⟩, h₂, h⟩ := bind_eq_error_iff.mp h
  · exact (locates_of_readOctets (by decide) h₂).of_liesIn in₁
  · exact locates_of_conclude ((liesIn_of_reading h₂).trans in₁) h

end Parts

theorem locates_of_readPrefixParts (h : readPrefixParts c = .error e) : c.Locates e := by
  obtain h₁ | ⟨⟨lead, c₁⟩, h₁, h⟩ := bind_eq_error_iff.mp h
  · exact locates_of_readOctets (by decide) h₁
  have in₁ := liesIn_of_reading h₁
  obtain h₂ | ⟨⟨limit, c₂⟩, h₂, h⟩ := bind_eq_error_iff.mp h
  · exact (locates_of_readInteger (by decide) h₂).of_liesIn in₁
  have in₂ := (liesIn_of_reading h₂).trans in₁
  obtain h₃ | ⟨wrapper, h₃, h⟩ := bind_eq_error_iff.mp h
  · exact (locates_of_element (by decide) h₃).of_liesIn in₂
  have in₃ := (liesIn_of_element h₃).1.trans in₂
  obtain h₄ | ⟨sub, -, h⟩ := bind_eq_error_iff.mp h
  · exact (locates_of_choice h₄).of_liesIn in₃
  · cases h

/-- The regions of the parts in front of the subfulfillment of a prefix, and behind it. -/
theorem liesIn_of_readPrefixParts {parts : PrefixParts Cursor}
    (h : readPrefixParts c = .ok parts) :
    parts.wrapper.after.LiesIn c ∧ parts.sub.inside.LiesIn parts.sub.start ∧
      parts.sub.start.LiesIn c ∧ parts.sub.after.LiesIn c := by
  obtain ⟨c₁, c₂, h₁, h₂, h₃, h₄⟩ := readPrefixParts_eq_ok_iff.mp h
  have in₂ := (liesIn_of_reading h₂).trans (liesIn_of_reading h₁)
  obtain ⟨wrapper, after⟩ := liesIn_of_element h₃
  obtain ⟨start, sub, behind⟩ := liesIn_of_choice h₄
  have in₃ := wrapper.trans in₂
  exact ⟨after.trans in₂, start ▸ sub, start ▸ in₃, behind.trans in₃⟩

/-- **What is wrong with the content of a fulfillment is located in its element.** -/
theorem locates_of_ofChoice (inside : found.inside.LiesIn found.start)
    (h : ofChoice found = .error e) : found.start.Locates e := by
  -- Fulfillments inside the content occupy smaller regions, so the induction is on the size.
  induction hn : size found.inside using Nat.strongRecOn generalizing found e with
  | ind n ih =>
  subst hn
  obtain ⟨ofPreimage, ofRsa, ofEd25519⟩ := ofChoice_simple found
  cases htype : found.type with
  | preimageSha256 =>
    rw [ofPreimage htype] at h
    exact locates_of_readPreimage inside h
  | prefixSha256 =>
    rw [ofChoice_prefixed htype] at h
    obtain hparts | ⟨parts, hparts, h⟩ := bind_eq_error_iff.mp h
    · exact (locates_of_readPrefixParts hparts).of_liesIn inside
    obtain ⟨after, sub, start, behind⟩ := liesIn_of_readPrefixParts hparts
    obtain hsub | ⟨f, -, h⟩ := bind_eq_error_iff.mp h
    · have within := ih _ (size_of_readPrefixParts hparts) sub hsub rfl
      exact (within.of_liesIn start).of_liesIn inside
    obtain hfinish | ⟨⟨⟩, -, h⟩ := bind_eq_error_iff.mp h
    · exact ((locates_of_finish (by decide) hfinish).of_liesIn behind).of_liesIn inside
    · exact locates_of_conclude (after.trans inside) h
  | thresholdSha256 =>
    rw [ofChoice_threshold htype] at h
    obtain hfirst | ⟨first, hfirst, h⟩ := bind_eq_error_iff.mp h
    · exact (locates_of_element (by decide) hfirst).of_liesIn inside
    have smaller := (size_of_element hfirst).1
    obtain ⟨in_first, after_first⟩ := liesIn_of_element hfirst
    obtain hset | ⟨fulfilled, -, h⟩ := bind_eq_error_iff.mp h
    · have within := locates_of_setOf (by decide) (fun child less e sub hchild =>
        ih _ (Nat.lt_trans less smaller) sub hchild rfl) hset
      exact (within.of_liesIn in_first).of_liesIn inside
    obtain hsecond | ⟨second, hsecond, h⟩ := bind_eq_error_iff.mp h
    · exact ((locates_of_element (by decide) hsecond).of_liesIn after_first).of_liesIn inside
    obtain ⟨in_second, after_second⟩ := liesIn_of_element hsecond
    obtain hset | ⟨left, -, h⟩ := bind_eq_error_iff.mp h
    · have within := locates_of_setOf (by decide) (fun child _ e sub hchild =>
        Condition.locates_of_ofChoice sub hchild) hset
      exact ((within.of_liesIn in_second).of_liesIn after_first).of_liesIn inside
    · exact locates_of_conclude ((after_second.trans after_first).trans inside) h
  | rsaSha256 =>
    rw [ofRsa htype] at h
    exact locates_of_readRsa inside h
  | ed25519Sha256 =>
    rw [ofEd25519 htype] at h
    exact locates_of_readEd25519 inside h

theorem locates_of_read (h : (read c).value = .error e) : c.Locates e := by
  obtain hchoice | ⟨found, hfound, hmade⟩ := reading_eq_error_iff.mp h
  · exact locates_of_choice hchoice
  · obtain ⟨rfl, inside, -⟩ := liesIn_of_choice hfound
    exact locates_of_ofChoice inside hmade

end Fulfillment

/-! ### Whole strings -/

namespace Der.Region

/-- The value that takes up a whole region. -/
def whole {ρ ε α : Type} [Region ρ ε] (c : ρ) (read : ρ → Reading ρ ε α) (field : String) :
    Except ε α := do
  let (a, d) ← (read c).value
  finish d field
  return a

/-- What a whole string is in a window of it, it is without the window. No octet is missing. -/
theorem whole_window {α : Type} {bs : Bytes} {field : String}
    {inWindow : Window → Reading Window Window.Error α}
    {atCursor : Cursor → Reading Cursor Malformed α}
    (like : Reading.Like (Window.At bs) (fun e why => e = Window.Error.malformed why) Eq
      (inWindow (Window.ofBytes bs)) (atCursor (Cursor.ofBytes bs))) :
    whole (Window.ofBytes bs) inWindow field =
      (whole (Cursor.ofBytes bs) atCursor field).mapError .malformed := by
  have agree : Agree (fun e why => e = Window.Error.malformed why) Eq
      (whole (Window.ofBytes bs) inWindow field) (whole (Cursor.ofBytes bs) atCursor field) := by
    refine like.agree_value.bind ?_
    rintro ⟨a, w⟩ ⟨_, d⟩ ⟨rfl, place⟩
    refine ((Window.corresponds_cursor bs).agree_finish place field).bind ?_
    rintro _ _ -
    exact .ok rfl
  rcases agree with ⟨e, why, he, hwhy, rfl⟩ | ⟨a, _, ha, ha', rfl⟩
  · rw [he, hwhy]
    rfl
  · rw [ha, ha']
    rfl

/-- Reading is located in the whole string if the reader is located, and goes on, in its region. -/
theorem located_whole {α : Type} {bs : Bytes} {field : String}
    {read : Cursor → Reading Cursor Malformed α} (part : field ∈ Malformed.parts)
    (locates : ∀ e, (read (Cursor.ofBytes bs)).value = .error e → (Cursor.ofBytes bs).Locates e)
    (liesIn : ∀ a d, (read (Cursor.ofBytes bs)).value = .ok (a, d) →
      d.LiesIn (Cursor.ofBytes bs)) :
    (∃ a, whole (Cursor.ofBytes bs) read field = .ok a) ∨
      ∃ e, whole (Cursor.ofBytes bs) read field = .error e ∧ e.LocatedIn bs := by
  cases result : whole (Cursor.ofBytes bs) read field with
  | ok a => exact .inl ⟨a, rfl⟩
  | error e =>
    have located : (Cursor.ofBytes bs).Locates e := by
      obtain failed | ⟨⟨a, d⟩, hread, rest⟩ := bind_eq_error_iff.mp result
      · exact locates e failed
      · obtain left | ⟨⟨⟩, -, ended⟩ := bind_eq_error_iff.mp rest
        · exact (locates_of_finish part left).of_liesIn (liesIn a d hread)
        · cases ended
    obtain ⟨named, le, le_stop⟩ := located
    rw [Cursor.stop_offset] at le_stop
    simp only [Cursor.ofBytes] at le le_stop
    exact .inr ⟨e, rfl, named, by omega, by omega⟩

/-- What is left after a value that a header announces lies in the region. -/
theorem liesIn_of_announced {α : Type} {c d : Cursor} {kind : Announced} {a : α}
    {make : Choice Cursor → Except Malformed α}
    (h : (reading c (choice c kind) Choice.after make).value = .ok (a, d)) : d.LiesIn c := by
  obtain ⟨found, hfound, -, rfl⟩ := reading_eq_ok_iff.mp h
  exact (liesIn_of_choice hfound).2.2

end Der.Region

/-- **Malformed strings fail in their octets.** For every octet string, reading it as a fulfillment
or as a condition gives a value, or a failure that names a part and a position in the string. And it
is the same in a window of positions, where octets could be missing: the only failures are these. -/
theorem decode_located (bs : Bytes) :
    ((∃ f, Fulfillment.decode bs = .ok f) ∨
        ∃ e, Fulfillment.decode bs = .error e ∧ e.LocatedIn bs) ∧
      ((∃ c, Condition.decode bs = .ok c) ∨
        ∃ e, Condition.decode bs = .error e ∧ e.LocatedIn bs) ∧
      whole (Window.ofBytes bs) Fulfillment.read "fulfillment" =
        (Fulfillment.decode bs).mapError .malformed ∧
      whole (Window.ofBytes bs) Condition.read "condition" =
        (Condition.decode bs).mapError .malformed := by
  have windows := Window.corresponds_cursor bs
  have start := Window.at_ofBytes bs
  refine ⟨?_, ?_, ?_, ?_⟩
  · exact located_whole (by decide) (fun _ => Fulfillment.locates_of_read)
      fun _ _ => liesIn_of_announced
  · exact located_whole (by decide) (fun _ => Condition.locates_of_read)
      fun _ _ => liesIn_of_announced
  · exact whole_window (windows.like_readFulfillment start)
  · exact whole_window (windows.like_readCondition start)

end HashConditions
