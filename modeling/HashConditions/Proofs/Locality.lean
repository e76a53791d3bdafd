import HashConditions.Proofs.WindowReading

/-!
# Reading is local to its region

A condition or a fulfillment that stands somewhere in a longer octet string is read as it would be
on its own. The octets around it do not influence what is read, and the positions in failures are
absolute: they grow by the number of octets in front, and nothing else about a failure changes.

A cursor holds the octets of its region and no others, so at a cursor only the second half is left
to show: reading commutes with relocation. Relocated cursors correspond
(`Cursor.corresponds_shift`), and every reader does the same at corresponding places. A window is
read like the cursor at its start, which makes the law one about windows in a shared string.

## Main results

* `Cursor.readCondition_shift`, `Cursor.readFulfillment_shift` — reading commutes with relocation
* `read_between` — what is read between other octets is what is read alone
-/

namespace HashConditions

open Der Region

namespace Der

/-! ### Relocating cursors -/

namespace Cursor

/-- The same octets, `n` positions further on. -/
def shift (n : Nat) (c : Cursor) : Cursor :=
  ⟨c.offset + n, c.rest⟩

/-- Cursors at the same octets answer alike; only their positions and those of their failures
differ. -/
theorem corresponds_shift (n : Nat) :
    Corresponds (fun c d : Cursor => c = d.shift n) fun e e' => e = Malformed.shift n e' where
  size_eq := by
    rintro _ d rfl
    rfl
  fits_eq := by
    rintro _ d rfl m
    rfl
  contents_eq := by
    rintro _ d rfl
    rfl
  agree_first? := by
    rintro _ d rfl
    exact .ok rfl
  agree_digits := by
    rintro _ d rfl -
    exact .ok rfl
  skip := by
    rintro _ d m rfl -
    simp only [shift, skip_eq, Nat.add_right_comm]
  within := by
    rintro _ d m rfl -
    rfl
  size_within := by
    rintro _ d m rfl le
    exact (List.length_take ..).trans (Nat.min_eq_left le)
  fail := by
    rintro _ d rfl fault field
    simp only [shift, fail_eq, Malformed.shift, Int.natCast_add]

variable (n : Nat) (c : Cursor)

theorem readCondition_shift :
    Condition.read (c.shift n) =
      ⟨(Condition.read c).result.mapError (Malformed.shift n), (Condition.read c).after.shift n⟩ :=
  ((corresponds_shift n).like_readCondition rfl).eq_of_maps fun _ _ same => same

theorem readFulfillment_shift :
    Fulfillment.read (c.shift n) =
      ⟨(Fulfillment.read c).result.mapError (Malformed.shift n),
        (Fulfillment.read c).after.shift n⟩ :=
  ((corresponds_shift n).like_readFulfillment rfl).eq_of_maps fun _ _ same => same

end Cursor

/-! ### Windows between other octets -/

/-- The window of the octets `bs` between `front` and `back`. -/
def Window.between (front bs back : Bytes) : Window :=
  ⟨front ++ bs ++ back, front.length, front.length + bs.length⟩

theorem Window.at_between (front bs back : Bytes) :
    At (front ++ bs ++ back) (between front bs back) ((Cursor.ofBytes bs).shift front.length) := by
  refine ⟨rfl, ?_, ?_⟩
  · simp only [Inside, between, List.length_append, Int.natCast_add]
    omega
  · have stop : ((front.length : Int) + bs.length).toNat = (front ++ bs).length := by
      rw [List.length_append]
      omega
    simp only [cursor, Cursor.region, between, stop, Int.toNat_natCast, List.take_left,
      List.drop_left, Cursor.shift, Cursor.ofBytes, Nat.zero_add]

/-- A reading of the octets `bs` alone, and one of them between others. Both have the same value, or
both fail for the same reason in the same part, the second one as many octets further on as there
are in front. They also leave off at the same octet, and both regions end where they did. -/
structure Reading.AlikeBetween {α : Type} (front bs back : Bytes)
    (alone between : Reading Window Window.Error α) : Prop where
  result :
    (∃ a, alone.result = .ok a ∧ between.result = .ok a) ∨
      ∃ why : Malformed, alone.result = .error (.malformed why) ∧
        between.result = .error (.malformed (why.shift front.length))
  after : ∃ n ≤ bs.length, alone.after = ⟨bs, n, bs.length⟩ ∧
    between.after = ⟨front ++ bs ++ back, front.length + n, front.length + bs.length⟩

/-- Two readings are alike if they are the same one, at the cursor of the octets and at its
relocation. -/
theorem Reading.alikeBetween_of_cursor {α : Type} (front back : Bytes) {bs : Bytes}
    {r : Reading Cursor Malformed α} (ends : stop r.after = stop (Cursor.ofBytes bs)) :
    AlikeBetween front bs back ⟨r.result.mapError .malformed, .ofCursor bs r.after⟩
      ⟨(r.result.mapError (Malformed.shift front.length)).mapError .malformed,
        .ofCursor (front ++ bs ++ back) (r.after.shift front.length)⟩ where
  result := by
    cases r.result with
    | error why => exact .inr ⟨why, rfl, rfl⟩
    | ok a => exact .inl ⟨a, rfl, rfl⟩
  after := by
    have total : r.after.offset + r.after.rest.length = bs.length := by
      simp only [stop, Cursor.offset_eq, Cursor.size_eq, Cursor.ofBytes] at ends
      omega
    refine ⟨r.after.offset, by omega, ?_, ?_⟩
    all_goals
      simp only [Window.ofCursor, Cursor.shift, Window.mk.injEq, Int.natCast_add, true_and]
      omega

end Der

/-- **Reading is local to its region.** Whatever octets stand around them, the same octets are read
as the same condition or fulfillment, or fail for the same reason; and places are counted from the
start of all octets. -/
theorem read_between (front bs back : Bytes) :
    Der.Reading.AlikeBetween front bs back (Condition.read (Window.ofBytes bs))
        (Condition.read (Window.between front bs back)) ∧
      Der.Reading.AlikeBetween front bs back (Fulfillment.read (Window.ofBytes bs))
        (Fulfillment.read (Window.between front bs back)) := by
  have alone := Window.at_ofBytes bs
  have between := Window.at_between front bs back
  constructor
  · rw [Window.readCondition_eq alone, Window.readCondition_eq between, Cursor.readCondition_shift]
    exact Der.Reading.alikeBetween_of_cursor front back (stop_after_reading _ .condition _)
  · rw [Window.readFulfillment_eq alone, Window.readFulfillment_eq between,
      Cursor.readFulfillment_shift]
    exact Der.Reading.alikeBetween_of_cursor front back (stop_after_reading _ .fulfillment _)

end HashConditions
