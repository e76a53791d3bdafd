import HashConditions.Der.Window
import HashConditions.Offered.Convert
import HashConditions.Offered.Labelled

/-!
# Spans

A span is a window between positions that a caller has offered. A truth value passes for zero or
one, and the end may be a floating-point number, also one between two positions: what fits is
decided by comparing numbers. No octet has a floating-point number as its position, so a span that
starts at one is either empty or unsuitable.

Failures show the positions in the form in which they were offered, until reading moves on to a
position of its own.
-/

namespace HashConditions

namespace Der

/-- A window, and its two positions as they are shown. -/
structure Span where
  window : Window
  offset : Offered
  stop : Offered

namespace Span

/-- Why nothing was read in a span. -/
inductive Error
  /-- The octets are no canonical encoding. -/
  | labelled (why : Labelled)
  /-- The span has no such octets. -/
  | failure (why : Failure)

/-- What the end of a window is to be for it to end where an amount says. What no reading of
lengths of four octets reaches counts as infinite. -/
def position (offset : Int) (bs : Bytes) : Amount → Int
  | .whole n => n
  | .floating (.finite negative steps) => (Floating.finite negative steps).ceiling
  | .floating (.infinite true) => offset
  | .floating _ => offset.natAbs + bs.length + 0x200000000

/-- The window between two amounts. -/
def between (bs : Bytes) : Amount → Amount → Window
  | .whole offset, stop => ⟨bs, offset, position offset bs stop⟩
  | offset, stop => ⟨bs, 0, if stop.below offset || stop.same offset then 0 else 1⟩

/-- The span between the positions that are offered. If the second one is not, the span goes on to
the end of the octets. -/
def offer (data offset stop : Offered) : Except Failure Span := do
  let bs ← data.toOctets
  let stop : Offered := match stop with
    | .nothing => .integer bs.length
    | _ => stop
  match offset.amount?, stop.amount? with
  | some first, some last => return ⟨between bs first last, offset, stop⟩
  | none, _ => throw (.unsuitable offset.kind)
  | some _, none => throw (.unsuitable stop.kind)

/-- Whether `n` octets end before the span does. -/
def fits (s : Span) (n : Nat) : Bool :=
  n ≤ s.window.size && !s.stop.amount?.any (·.below (.whole (s.window.offset + n)))

/-- The first octet, which has to be there unless the span is empty. -/
def first? (s : Span) : Except Error (Option UInt8) :=
  match s.offset with
  | .floating _ =>
    if s.window.size = 0 then .ok none else .error (.failure (.unsuitable s.offset.kind))
  | _ => s.window.first?.mapError fun e => .failure e.failure

/-- The number of octets from one position to the other. -/
def left? (s : Span) : Option Offered := do
  return .ofAmount (← (← s.stop.amount?).minus? (← s.offset.amount?))

/-- The failure on what is wrong at the start of the span. -/
def fail (s : Span) (fault : Malformed.Fault) (field : String) : Error :=
  match fault, s.left? with
  | .overrun .., none | .trailing _, none => .failure (.unrepresentable .floatingRange)
  | _, left => .labelled ⟨fault, .text field, s.offset, left.getD .nothing⟩

instance : Region Span Error where
  offset s := s.window.offset
  size s := s.window.size
  fits := fits
  first? := first?
  contents s := s.window.contents
  digits s := s.window.digits.mapError fun e => .failure e.failure
  skip s n := ⟨Region.skip s.window n, .integer (s.window.offset + n), s.stop⟩
  within s n := ⟨Region.within s.window n, s.offset, .integer (s.window.offset + n)⟩
  fail := fail
  le_size h := of_decide_eq_true (Bool.and_eq_true_iff.1 h).1
  size_pos {s b} h := by
    rw [first?] at h
    split at h
    · split at h <;> simp at h
    · cases hw : s.window.first? with
      | error e =>
        rw [hw] at h
        exact nomatch h
      | ok found =>
        rw [hw] at h
        cases h
        exact Region.size_pos (c := s.window) hw
  size_skip s n := Region.size_skip s.window n
  size_within s n := Region.size_within s.window n

/-- The span of a window with integers for positions, which is all it knows. -/
def ofWindow (w : Window) : Span :=
  ⟨w, .integer w.offset, .integer w.stop⟩

theorem offer_integers (holder : Holder) (bs : Bytes) (offset stop : Int) :
    offer (.octets holder bs) (.integer offset) (.integer stop) =
      .ok (ofWindow ⟨bs, offset, stop⟩) :=
  rfl

end Span

end Der

end HashConditions
