import HashConditions.Der.Cursor

/-!
# Windows

A window is a region that is given by two positions in an octet string. Nobody promises that the
positions lie in the string. A position below zero counts from the end of the string, so a window
may start among the last octets and go on with the first ones; a position too far to either side
has no octet, and asking for it is a failure (`Window.Error.outside`).

Contents are what lies between two positions, as far as it is there: nothing, if the first one
is behind the second once both are counted from the start. So contents may be shorter than the
length that was read for them.

A window that lies in its string (`Window.Inside`) is the cursor at its start.
-/

namespace HashConditions

namespace Der

/-- Two positions in an octet string. -/
structure Window where
  data : Bytes
  offset : Int
  stop : Int
deriving DecidableEq

namespace Window

/-- Why nothing was read in a window. -/
inductive Error
  /-- The octets are no canonical encoding. -/
  | malformed (why : Malformed)
  /-- An octet that is needed is not there. -/
  | outside (position : Int)
deriving DecidableEq

/-- The failure that an error is to those who did not ask for a window. -/
def Error.failure : Error → Failure
  | malformed why => .malformed why
  | outside position => .outside position

/-- The window of all octets of a string. -/
def ofBytes (bs : Bytes) : Window :=
  ⟨bs, 0, bs.length⟩

/-- A position, counted from the start of the string. -/
def fromStart (w : Window) (position : Int) : Int :=
  if position < 0 then position + w.data.length else position

/-- The octet at the start of the window. -/
def octet? (w : Window) : Option UInt8 :=
  let place := w.fromStart w.offset
  if place < 0 then none else w.data[place.toNat]?

/-- The octets between the two positions. -/
def contents (w : Window) : Bytes :=
  (w.data.take (w.fromStart w.stop).toNat).drop (w.fromStart w.offset).toNat

/-- The number of octets that the window claims. -/
def size (w : Window) : Nat :=
  (w.stop - w.offset).toNat

/-- The first octet, which has to be there unless the window is empty. -/
def first? (w : Window) : Except Error (Option UInt8) :=
  if w.size = 0 then .ok none
  else
    match w.octet? with
    | some b => .ok (some b)
    | none => .error (.outside w.offset)

/-- The octets as digits. The first one has to be there. -/
def digits (w : Window) : Except Error Bytes :=
  if w.contents.isEmpty then .error (.outside w.offset) else .ok w.contents

instance : Region Window Error where
  offset := offset
  size := size
  fits w n := n ≤ w.size
  first? := first?
  contents := contents
  digits := digits
  skip w n := ⟨w.data, w.offset + n, w.stop⟩
  within w n := ⟨w.data, w.offset, w.offset + n⟩
  fail w fault field := .malformed ⟨fault, field, w.offset⟩
  le_size h := of_decide_eq_true h
  size_pos {w b} h := by
    rw [first?] at h
    split at h
    · simp at h
    · omega
  size_skip w n := by
    simp only [size]
    omega
  size_within w n := by
    simp only [size]
    omega

/-! ### Windows that lie in their string -/

/-- Both positions are positions of the string. -/
def Inside (w : Window) : Prop :=
  0 ≤ w.offset ∧ w.offset ≤ w.stop ∧ w.stop ≤ w.data.length

/-- The cursor at the start of a window. -/
def cursor (w : Window) : Cursor :=
  .region w.data w.offset.toNat w.stop.toNat

theorem inside_ofBytes (bs : Bytes) : (ofBytes bs).Inside := by
  simp [Inside, ofBytes]

theorem cursor_ofBytes (bs : Bytes) : (ofBytes bs).cursor = .ofBytes bs := by
  simp [cursor, ofBytes, Cursor.region, Cursor.ofBytes]

theorem contents_eq_rest {w : Window} (h : w.Inside) : w.contents = w.cursor.rest := by
  obtain ⟨start, order, finish⟩ := h
  rw [contents, fromStart, fromStart, if_neg (by omega), if_neg (by omega)]
  rfl

theorem size_eq_length {w : Window} (h : w.Inside) : w.size = w.cursor.rest.length := by
  obtain ⟨start, order, finish⟩ := h
  simp only [size, cursor, Cursor.region, List.length_drop, List.length_take]
  omega

theorem first?_eq_head? {w : Window} (h : w.Inside) : w.first? = .ok w.cursor.rest.head? := by
  have length := size_eq_length h
  obtain ⟨start, order, finish⟩ := h
  rw [first?]
  split
  · next none =>
    rw [length] at none
    rw [List.eq_nil_of_length_eq_zero none]
    rfl
  · next some =>
    have here : w.offset.toNat < w.data.length := by
      simp only [size] at some
      omega
    have head : w.cursor.rest.head? = w.data[w.offset.toNat]? := by
      simp only [size] at some
      rw [cursor, Cursor.region, List.head?_drop, List.getElem?_take_of_lt (by omega)]
    rw [head, octet?, fromStart, if_neg (by omega), if_neg (by omega)]
    simp [here]

/-- The windows that reading goes on with lie in the string as well. -/
theorem Inside.skip {w : Window} {n : Nat} (h : w.Inside) (hn : n ≤ w.size) :
    (Region.skip w n).Inside := by
  obtain ⟨start, order, finish⟩ := h
  simp only [size] at hn
  simp only [Region.skip, Inside]
  omega

theorem Inside.within {w : Window} {n : Nat} (h : w.Inside) (hn : n ≤ w.size) :
    (Region.within w n).Inside := by
  obtain ⟨start, order, finish⟩ := h
  simp only [size] at hn
  simp only [Region.within, Inside]
  omega

/-- Reading on in a window is reading on at its cursor. -/
theorem cursor_skip {w : Window} (h : w.Inside) (n : Nat) :
    (Region.skip w n).cursor = Region.skip w.cursor n := by
  obtain ⟨start, order, finish⟩ := h
  have place : (w.offset + n).toNat = w.offset.toNat + n := by omega
  simp only [cursor, Cursor.region, Region.skip, place, List.drop_drop]

theorem cursor_within {w : Window} {n : Nat} (h : w.Inside) (hn : n ≤ w.size) :
    (Region.within w n).cursor = Region.within w.cursor n := by
  obtain ⟨start, order, finish⟩ := h
  simp only [size] at hn
  have place : (w.offset + n).toNat = w.offset.toNat + n := by omega
  simp only [cursor, Cursor.region, Region.within, place]
  rw [List.take_drop, List.take_take, Nat.min_eq_left (by omega)]

end Window

end Der

end HashConditions
