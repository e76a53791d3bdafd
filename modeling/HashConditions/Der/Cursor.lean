import HashConditions.Der.Region

/-!
# Cursors

A cursor is a region that holds its octets: it knows its absolute position and the octets from
there to the end of the region, and nothing else. So octets outside the region cannot influence
what is read, and the positions in failures are absolute because each step adds to the position
what it takes off the octets.
-/

namespace HashConditions

namespace Der

/-- A position in an octet string, with the octets from there to the end of a region. -/
structure Cursor where
  offset : Nat
  rest : Bytes
deriving DecidableEq

namespace Cursor

/-- The cursor at the start of an octet string. -/
def ofBytes (bs : Bytes) : Cursor :=
  ⟨0, bs⟩

/-- The cursor at `start` in the region that ends before `stop`. -/
def region (bs : Bytes) (start stop : Nat) : Cursor :=
  ⟨start, (bs.take stop).drop start⟩

instance : Region Cursor Malformed where
  offset c := c.offset
  size c := c.rest.length
  fits c n := n ≤ c.rest.length
  first? c := .ok c.rest.head?
  contents c := c.rest
  digits c := .ok c.rest
  skip c n := ⟨c.offset + n, c.rest.drop n⟩
  within c n := ⟨c.offset, c.rest.take n⟩
  fail c fault field := ⟨fault, field, c.offset⟩
  le_size h := of_decide_eq_true h
  size_pos {c b} h := by
    obtain ⟨bs, hb⟩ := List.head?_eq_some_iff.1 (Except.ok.inj h)
    simp [hb]
  size_skip c n := List.length_drop
  size_within c n := List.length_take_le n c.rest

variable (c : Cursor) (n : Nat) (fault : Malformed.Fault) (field : String)

@[simp] theorem offset_eq : Region.offset c = c.offset := rfl

@[simp] theorem size_eq : Region.size c = c.rest.length := rfl

@[simp] theorem fits_eq : Region.fits c n = decide (n ≤ c.rest.length) := rfl

@[simp] theorem first?_eq : Region.first? c = .ok c.rest.head? := rfl

@[simp] theorem contents_eq : Region.contents c = c.rest := rfl

@[simp] theorem digits_eq : Region.digits c = .ok c.rest := rfl

@[simp] theorem skip_eq : Region.skip c n = ⟨c.offset + n, c.rest.drop n⟩ := rfl

@[simp] theorem within_eq : Region.within c n = ⟨c.offset, c.rest.take n⟩ := rfl

@[simp] theorem fail_eq : Region.fail c fault field = ⟨fault, field, c.offset⟩ := rfl

end Cursor

end Der

end HashConditions
