import HashConditions.Der.Element

/-!
# Regions

A region is what elements are read from: a position, and so many octets from there to its end.
`Region` lists what reading needs to know of it. Everything else is said once for all kinds of
regions: the header of an element is a tag of one octet and a definite length in its shortest form,
and the content ends within the region. The content of an element is a region again, and strictly
smaller (`Region.size_of_next`); recursive reading ends for that reason.

A `Cursor` holds the octets of its region, so nothing outside can influence what is read. A `Window`
is given by two positions in an octet string, and it may claim octets that are not there; asking for
one of them is a failure of its own, which is why the kind of failures is up to the kind of regions.

A reading (`Reading`) is a result together with the region to go on from. An element that has been
delimited is left behind even if its content turns out to make no sense.
-/

namespace HashConditions

namespace Der

/-- Regions of the kind `ρ`, from which reading fails with an `ε`. -/
class Region (ρ : Type) (ε : outParam Type) where
  /-- The position at which the region starts. -/
  offset : ρ → Int
  /-- The number of octets from there to the end. -/
  size : ρ → Nat
  /-- Whether `n` octets end within the region. -/
  fits : ρ → Nat → Bool
  /-- The first octet, unless the region is empty. -/
  first? : ρ → Except ε (Option UInt8)
  /-- The octets, as far as they are there. -/
  contents : ρ → Bytes
  /-- The octets as the digits of a number, of which one at least has to be there. -/
  digits : ρ → Except ε Bytes
  /-- The region without its first `n` octets. -/
  skip : ρ → Nat → ρ
  /-- The region of the first `n` octets. -/
  within : ρ → Nat → ρ
  /-- The failure on what is wrong with the named part at the start of the region. -/
  fail : ρ → Malformed.Fault → String → ε
  le_size : ∀ {c : ρ} {n : Nat}, fits c n = true → n ≤ size c
  size_pos : ∀ {c : ρ} {b : UInt8}, first? c = .ok (some b) → 0 < size c
  size_skip : ∀ (c : ρ) (n : Nat), size (skip c n) = size c - n
  size_within : ∀ (c : ρ) (n : Nat), size (within c n) ≤ n

/-- A delimited element: its tag, the region of its content and the region behind it. -/
structure Element (ρ : Type) where
  tag : UInt8
  inside : ρ
  after : ρ

/-- A result of reading, and the region to go on from. -/
structure Reading (ρ ε α : Type) where
  result : Except ε α
  after : ρ

/-- The value that was read, with the region behind it. -/
def Reading.value {ρ ε α : Type} (r : Reading ρ ε α) : Except ε (α × ρ) :=
  match r.result with
  | .ok a => .ok (a, r.after)
  | .error e => .error e

/-- The same reading with another form of its value. -/
def Reading.map {ρ ε α β : Type} (f : α → β) (r : Reading ρ ε α) : Reading ρ ε β :=
  ⟨r.result.map f, r.after⟩

variable {ρ ε : Type} [Region ρ ε]

/-- The content octets of an element. -/
def Element.content (e : Element ρ) : Bytes :=
  Region.contents e.inside

namespace Region

/-- The position at which the region ends. -/
def stop (c : ρ) : Int :=
  offset c + size c

/-- Whether the region is used up. -/
def atEnd (c : ρ) : Bool :=
  size c = 0

/-- The octets between a region and a later one. -/
def upTo (c later : ρ) : Bytes :=
  contents (within c (offset later - offset c).toNat)

/-- The octet at the start, which is the tag of the next element. -/
def peek (c : ρ) (field : String) : Except ε UInt8 :=
  match first? c with
  | .error e => .error e
  | .ok none => .error (fail c .unexpectedEnd field)
  | .ok (some tag) => .ok tag

/-- The length in base 256 that has `count` digits, with the region behind it. -/
def longLength (c : ρ) (count : Nat) (field : String) : Except ε (Nat × ρ) :=
  if fits c count then
    match digits (within c count) with
    | .error e => .error e
    | .ok ds =>
      if ds.head? = some 0 ∨ Bytes.toNat ds < 128 then .error (fail c .paddedLength field)
      else .ok (Bytes.toNat ds, skip c count)
  else .error (fail c .truncatedLength field)

/-- The length at the start, with the region behind it. -/
def length (c : ρ) (field : String) : Except ε (Nat × ρ) :=
  match first? c with
  | .error e => .error e
  | .ok none => .error (fail c .missingLength field)
  | .ok (some first) =>
    if first < 128 then .ok (first.toNat, skip c 1)
    else if first = 128 then .error (fail c .indefiniteLength field)
    else if first.toNat - 128 > 4 then .error (fail c .longLength field)
    else longLength (skip c 1) (first.toNat - 128) field

/-- The element that a content of `n` octets completes. -/
def close (c : ρ) (tag : UInt8) (n : Nat) (field : String) : Except ε (Element ρ) :=
  if fits c n then .ok ⟨tag, within c n, skip c n⟩
  else .error (fail c (.overrun n (size c)) field)

/-- The next element, of whatever tag. -/
def next (c : ρ) (field : String) : Except ε (Element ρ) :=
  match peek c field with
  | .error e => .error e
  | .ok tag =>
    if tag &&& 0x1F = 0x1F then .error (fail c .longTag field)
    else
      match length (skip c 1) field with
      | .error e => .error e
      | .ok (n, body) => close body tag n field

/-- The next element, which must carry the given tag. -/
def element (c : ρ) (tag : UInt8) (field : String) : Except ε (Element ρ) :=
  match peek c field with
  | .error e => .error e
  | .ok found =>
    if found = tag then next c field
    else .error (fail c (.unexpectedTag tag.toNat found) field)

/-- What the content of an element makes. If the element itself is not there, the region stays;
otherwise it is left behind, whatever the content makes. -/
def reading {α β : Type} (c : ρ) (found : Except ε β) (after : β → ρ)
    (make : β → Except ε α) : Reading ρ ε α :=
  match found with
  | .error e => ⟨.error e, c⟩
  | .ok b => ⟨make b, after b⟩

/-- Reads the next element, of whatever tag: its tag and its content. -/
def readAny (c : ρ) (field : String) : Reading ρ ε (UInt8 × Bytes) :=
  reading c (next c field) Element.after fun e => .ok (e.tag, e.content)

/-- Reads the content of the next element, which must carry the given tag. -/
def readOctets (c : ρ) (tag : UInt8) (field : String) : Reading ρ ε Bytes :=
  reading c (element c tag field) Element.after fun e => .ok e.content

/-- Reads an integer, which must carry the given tag. What is wrong with its content is reported
at the start of the element. -/
def readInteger (c : ρ) (tag : UInt8) (field : String) : Reading ρ ε Nat :=
  reading c (element c tag field) Element.after fun e =>
    (decodeInteger e.content).mapError fun fault => fail c fault field

/-- Reads an element that must carry the given tag and yields the region of its content. -/
def readNested (c : ρ) (tag : UInt8) (field : String) : Reading ρ ε ρ :=
  reading c (element c tag field) Element.after fun e => .ok e.inside

/-- Fails if anything is left of the region. -/
def finish (c : ρ) (field : String) : Except ε Unit :=
  if atEnd c then .ok () else .error (fail c (.trailing (size c)) field)

/-! ### Elements are smaller than their region -/

theorem size_pos_of_peek {c : ρ} {tag : UInt8} {field : String} (h : peek c field = .ok tag) :
    0 < size c := by
  rw [peek] at h
  split at h
  · simp at h
  · simp at h
  · next heq => exact size_pos heq

theorem size_of_longLength {c body : ρ} {count n : Nat} {field : String}
    (h : longLength c count field = .ok (n, body)) : size body ≤ size c := by
  rw [longLength] at h
  split at h
  · split at h
    · simp at h
    · split at h
      · simp at h
      · cases h
        rw [size_skip]
        omega
  · simp at h

theorem size_of_length {c body : ρ} {n : Nat} {field : String}
    (h : length c field = .ok (n, body)) : size body < size c := by
  rw [length] at h
  split at h
  · simp at h
  · simp at h
  · next first heq =>
    have pos := size_pos heq
    have step : size (skip c 1) < size c := by rw [size_skip]; omega
    split at h
    · cases h
      exact step
    · split at h
      · simp at h
      · split at h
        · simp at h
        · exact Nat.lt_of_le_of_lt (size_of_longLength h) step

theorem size_of_close {c : ρ} {tag : UInt8} {n : Nat} {field : String} {e : Element ρ}
    (h : close c tag n field = .ok e) : size e.inside ≤ size c ∧ size e.after ≤ size c := by
  rw [close] at h
  split at h
  · next fit =>
    cases h
    have := le_size fit
    have := size_within c n
    simp only [size_skip]
    omega
  · simp at h

/-- Both the content of the next element and what follows it are smaller than the region. -/
theorem size_of_next {c : ρ} {field : String} {e : Element ρ} (h : next c field = .ok e) :
    size e.inside < size c ∧ size e.after < size c := by
  rw [next] at h
  split at h
  · simp at h
  · split at h
    · simp at h
    · split at h
      · simp at h
      · next n body hlen =>
        have := size_of_close h
        have := size_of_length hlen
        rw [size_skip] at this
        omega

theorem size_of_element {c : ρ} {tag : UInt8} {field : String} {e : Element ρ}
    (h : element c tag field = .ok e) : size e.inside < size c ∧ size e.after < size c := by
  rw [element] at h
  split at h
  · simp at h
  · split at h
    · exact size_of_next h
    · simp at h

/-- What is left after a reading is smaller than the region. -/
theorem size_of_reading {α : Type} {c : ρ} {tag : UInt8} {field : String}
    {make : Element ρ → Except ε α} {a : α} {after : ρ}
    (h : (reading c (element c tag field) Element.after make).value = .ok (a, after)) :
    size after < size c := by
  cases he : element c tag field with
  | error e =>
    rw [he] at h
    cases h
  | ok b =>
    rw [he, reading, Reading.value] at h
    split at h
    · cases h
      exact (size_of_element he).2
    · cases h

end Region

end Der

end HashConditions
