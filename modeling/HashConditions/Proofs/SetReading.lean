import HashConditions.Der.Choice
import HashConditions.Proofs.Reading
import HashConditions.Proofs.Sorting

/-!
# Sets are read in order

The reader of sets goes through the elements from the front and keeps the encoding of the last one,
so the induction is on the list of values and carries the encoding before it. It finds the values of
a concatenation of encodings exactly if those are in canonical order. What an element is and how it
is completed is left open, since thresholds hold a set of fulfillments and a set of conditions.

## Main results

* `Region.setOf_of_sorted` — sorted encodings are read
* `Region.sorted_of_setOf` — what is read are sorted encodings
-/

namespace HashConditions

namespace Der

namespace Region

open Bytes (Sorted lexLe sorted_cons sorted_cons_cons)

/-! ### One round of the reader -/

section Round

variable {ρ ε α : Type} [Region ρ ε] {kind : Announced} {field : String} {n : Nat}
  {make : (found : Choice ρ) → size found.inside < n → Except ε α} {c : ρ} {hc : size c ≤ n}
  {previous : Bytes}

theorem setOf_of_atEnd (h : atEnd c = true) : setOf kind field n make c hc previous = .ok [] := by
  rw [setOf, if_pos h]

theorem setOf_of_error (h : ¬atEnd c = true) {e : ε} (he : choice c kind = .error e) :
    setOf kind field n make c hc previous = .error e := by
  rw [setOf, if_neg h]
  split
  · next e' he' =>
    obtain rfl : e' = e := Except.error.inj (he'.symm.trans he)
    rfl
  · next found hfound =>
    rw [he] at hfound
    cases hfound

/-- The element at the start of the region is completed before its place is checked. -/
theorem setOf_of_choice (h : ¬atEnd c = true) {found : Choice ρ}
    (hfound : choice c kind = .ok found) :
    setOf kind field n make c hc previous =
      make found (Nat.lt_of_lt_of_le (size_of_choice hfound).1 hc) >>= fun value =>
        if lexLe previous (upTo c found.after) then
          (setOf kind field n make found.after
            (Nat.le_trans (Nat.le_of_lt (size_of_choice hfound).2) hc)
            (upTo c found.after)).map (value :: ·)
        else .error (fail c .unsortedSet field) := by
  rw [setOf, if_neg h]
  split
  · next e he =>
    rw [he] at hfound
    cases hfound
  · next found' hfound' =>
    obtain rfl : found' = found := Except.ok.inj (hfound'.symm.trans hfound)
    cases hmake : make found' (Nat.lt_of_lt_of_le (size_of_choice hfound').1 hc) with
    | error e => simp only [hmake, bind, Except.bind]
    | ok value =>
      simp only [hmake, bind, Except.bind]
      split
      · cases setOf kind field n make found'.after _ _ with
        | error e => rfl
        | ok values => rfl
      · rfl

/-- The bound on the region is there for the maker, so one that ignores it gets by with any. -/
theorem setOf_bound {make : Choice ρ → Except ε α} {m : Nat} (hm : size c ≤ m) :
    setOf kind field n (fun found _ => make found) c hc previous =
      setOf kind field m (fun found _ => make found) c hm previous := by
  induction hs : size c using Nat.strongRecOn generalizing c previous with
  | ind s ih =>
  subst hs
  by_cases h : atEnd c = true
  · rw [setOf_of_atEnd h, setOf_of_atEnd h]
  · rcases eq_error_or_ok (choice c kind) with ⟨e, he⟩ | ⟨found, hfound⟩
    · rw [setOf_of_error h he, setOf_of_error h he]
    · have smaller := (size_of_choice hfound).2
      rw [setOf_of_choice h hfound, setOf_of_choice h hfound,
        ih _ smaller (Nat.le_trans (Nat.le_of_lt smaller) hm) rfl]

end Round

/-! ### Sets at a cursor -/

variable {α : Type} {kind : Announced} {field : String} {n : Nat}
  {make : (found : Choice Cursor) → size found.inside < n → Except Malformed α}

/-- What one round of the reader does: it stops at the end of the region, and otherwise it takes off
an element that comes no earlier than the one before. -/
theorem setOf_eq_ok_iff {c : Cursor} {hc : size c ≤ n} {previous : Bytes} {values : List α} :
    setOf kind field n make c hc previous = .ok values ↔
      c.rest = [] ∧ values = [] ∨
      ∃ found value rest, ∃ hfound : choice c kind = .ok found,
        make found (Nat.lt_of_lt_of_le (size_of_choice hfound).1 hc) = .ok value ∧
        lexLe previous (upTo c found.after) = true ∧
        setOf kind field n make found.after
          (Nat.le_trans (Nat.le_of_lt (size_of_choice hfound).2) hc) (upTo c found.after) =
            .ok rest ∧
        values = value :: rest := by
  by_cases h : atEnd c = true
  · rw [setOf_of_atEnd h]
    rw [atEnd_iff] at h
    constructor
    · intro hv
      exact .inl ⟨h, (Except.ok.inj hv).symm⟩
    · rintro (⟨-, rfl⟩ | ⟨found, -, -, hfound, -⟩)
      · rfl
      · have := (size_of_choice hfound).1
        rw [Cursor.size_eq c, h] at this
        exact absurd this (Nat.not_lt_zero _)
  · have more : c.rest ≠ [] := mt atEnd_iff.mpr h
    simp only [more, false_and, false_or]
    constructor
    · intro hv
      rcases eq_error_or_ok (choice c kind) with ⟨e, hfound⟩ | ⟨found, hfound⟩
      · rw [setOf_of_error h hfound] at hv
        cases hv
      · rw [setOf_of_choice h hfound, bind_eq_ok_iff] at hv
        obtain ⟨value, hvalue, hv⟩ := hv
        split at hv
        · next le =>
          obtain ⟨rest, hrest, heq⟩ := map_eq_ok_iff.mp hv
          exact ⟨found, value, rest, hfound, hvalue, le, hrest, heq.symm⟩
        · exact nomatch hv
    · rintro ⟨found, value, rest, hfound, hvalue, le, hrest, rfl⟩
      rw [setOf_of_choice h hfound, hvalue]
      simp only [bind, Except.bind, if_pos le, hrest, Except.map]

/-- Every value of a set was completed from the header of an element. -/
theorem exists_of_mem_setOf {values : List α} {c : Cursor} {hc : size c ≤ n} {previous : Bytes}
    (h : setOf kind field n make c hc previous = .ok values) :
    ∀ a ∈ values, ∃ found smaller, make found smaller = .ok a := by
  induction values generalizing c previous with
  | nil =>
    intro a ha
    exact absurd ha List.not_mem_nil
  | cons b values ih =>
    rcases setOf_eq_ok_iff.mp h with ⟨-, heq⟩ | ⟨found, value, rest, hfound, hvalue, -, hrest, heq⟩
    · exact absurd heq (List.cons_ne_nil _ _)
    · obtain ⟨rfl, rfl⟩ := List.cons.inj heq
      intro a ha
      rcases List.mem_cons.mp ha with rfl | ha
      · exact ⟨found, _, hvalue⟩
      · exact ih hrest a ha

/-- A value is read wherever the octets lie ahead that are written for it. -/
def ReadsFrom (kind : Announced)
    (make : (found : Choice Cursor) → size found.inside < n → Except Malformed α) (bs : Bytes)
    (a : α) : Prop :=
  ∀ c d : Cursor, c.Spans bs d →
    ∃ found, choice c kind = .ok found ∧ found.after = d ∧ ∀ h, make found h = .ok a

/-- One round of the reader, over an element that is read. -/
theorem setOf_of_spans {a : α} {bs : Bytes} {c d : Cursor} {hc : size c ≤ n} {previous : Bytes}
    (reads : ReadsFrom kind make bs a) (spans : c.Spans bs d) :
    ∃ hd, setOf kind field n make c hc previous =
      if Bytes.lexLe previous bs then
        (setOf kind field n make d hd bs).map (a :: ·)
      else .error (fail c .unsortedSet field) := by
  obtain ⟨found, hfound, rfl, hmake⟩ := reads c d spans
  obtain ⟨-, smaller⟩ := size_of_choice hfound
  have more : ¬atEnd c = true := by
    rw [atEnd, decide_eq_true_eq]
    omega
  refine ⟨by omega, ?_⟩
  rw [setOf_of_choice more hfound, hmake, spans.upTo_eq]
  rfl

/-- Encodings in canonical order are read, if each of the values is. -/
theorem setOf_of_sorted (encode : α → Bytes) {values : List α} {c : Cursor} {hc : size c ≤ n}
    {previous : Bytes} (reads : ∀ a ∈ values, ReadsFrom kind make (encode a) a)
    (sorted : Sorted (previous :: values.map encode))
    (hrest : c.rest = (values.map encode).flatten) :
    setOf kind field n make c hc previous = .ok values := by
  induction values generalizing c previous with
  | nil => exact setOf_eq_ok_iff.mpr (.inl ⟨hrest, rfl⟩)
  | cons a values ih =>
    rw [List.map_cons, sorted_cons_cons] at sorted
    obtain ⟨le, sorted⟩ := sorted
    have spans : c.Spans (encode a) ⟨c.offset + (encode a).length, (values.map encode).flatten⟩ :=
      ⟨hrest, rfl⟩
    obtain ⟨hd, round⟩ := setOf_of_spans (reads a (List.mem_cons_self ..)) spans
    rw [round, if_pos le, ih (fun b hb => reads b (List.mem_cons_of_mem _ hb)) sorted rfl]
    rfl

/-- What is read as a set are encodings in canonical order. -/
theorem sorted_of_setOf (encode : α → Bytes) {values : List α} {c : Cursor} {hc : size c ≤ n}
    {previous : Bytes} (written : ∀ found h a, make found h = .ok a →
      encodeElement (constructedTag found.type.code) found.inside.rest = encode a)
    (h : setOf kind field n make c hc previous = .ok values) :
    c.rest = (values.map encode).flatten ∧ Sorted (previous :: values.map encode) := by
  induction values generalizing c previous with
  | nil =>
    rcases setOf_eq_ok_iff.mp h with ⟨hend, -⟩ | ⟨found, value, rest, -, -, -, -, heq⟩
    · exact ⟨hend, List.pairwise_singleton _ _⟩
    · exact absurd heq (List.cons_ne_nil _ _).symm
  | cons a values ih =>
    rcases setOf_eq_ok_iff.mp h with ⟨-, heq⟩ | ⟨found, value, rest, hfound, hvalue, le, hrest, heq⟩
    · exact absurd heq (List.cons_ne_nil _ _)
    · obtain ⟨rfl, rfl⟩ := List.cons.inj heq
      have spans := (choice_eq_ok_iff.mp hfound).2.1
      rw [written _ _ _ hvalue] at spans
      rw [spans.upTo_eq] at le hrest
      obtain ⟨flat, sorted⟩ := ih hrest
      refine ⟨?_, sorted_cons_cons.mpr ⟨le, sorted⟩⟩
      rw [spans.1, flat]
      rfl

end Region

end Der

end HashConditions
