import HashConditions.Offered.Shown

/-!
# Faults with labels of any kind

A caller who reads octets piece by piece says himself what a piece is called and where it stands.
Both labels end up in the message of a fault, in the same form as those of `Malformed`. Without a
name the message has no label at all; without a position it has the name alone. Where a fault is
that too few octets are left, or too many, their number may come from the caller as well.
-/

namespace HashConditions

/-- A fault in octets that a caller has labelled, and what is left of the octets if that comes from
the caller. -/
structure Labelled where
  fault : Malformed.Fault
  field : Offered
  offset : Offered
  left : Offered := .nothing

namespace Labelled

/-- The failure to build a value that a fault passes on. -/
def cause? (e : Labelled) : Option Invalid :=
  match e.fault with
  | .invalid why => some why
  | _ => none

/-- The wording of a fault, without its labels. -/
def sentence (e : Labelled) : Except Unrepresentable String := do
  match e.fault, e.left with
  | fault, .nothing => return fault.sentence
  | .overrun declared _, left => return Malformed.overrunSentence declared (← left.shown)
  | .trailing _, left => return Malformed.trailingSentence (← left.shown)
  | fault, _ => return fault.sentence

/-- The wording of a fault, with its labels. -/
def message (e : Labelled) : Except Unrepresentable String := do
  let sentence ← e.sentence
  match e.field, e.offset with
  | .nothing, _ => return sentence
  | field, .nothing =>
    let field ← field.shown
    return s!"{sentence} (field={field})"
  | field, offset =>
    let field ← field.shown
    let offset ← offset.shown
    return s!"{sentence} (field={field}, offset={offset})"

/-- A part with a name and a position is described as in a failure of the library itself. -/
theorem message_of_text (fault : Malformed.Fault) (field : String) (offset : Int)
    (h : Text.isLong offset.natAbs = false) :
    message { fault, field := .text field, offset := .integer offset } =
      .ok (Malformed.message ⟨fault, field, offset⟩) := by
  have plain : sentence { fault, field := .text field, offset := .integer offset } =
      .ok fault.sentence := by
    cases fault <;> rfl
  simp [message, plain, Malformed.message, Offered.shown, Offered.quoted, decimalText, h, bind,
    Except.bind, pure, Except.pure]
  rfl

end Labelled

end HashConditions
