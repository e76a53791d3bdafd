import HashConditions.Proofs.WindowReading

/-!
# Sets out of order

The reader of sets compares each element with the one before it and stops at the first one that is
smaller. Comparing neighbours decides whether a whole set is sorted (`Bytes.sorted_iff_isChain`).

Everything in front of the first smaller element is in order, so the reader gets that far, and
what stands behind it is never read (`Region.setOf_of_descent`). Positions are reported as they are
in the string, also where the set begins somewhere in it.

## Main definitions

* `Ascending` — values whose encodings come in order
* `Descent` — the first value whose encoding is smaller than the one before it
* `ReadsInOrder` — values in order are read, and the first descent is reported otherwise

## Main results

* `Region.setOf_of_descent` — the first descent is reported, whatever follows it
* `readSet_of_contents` — fulfillments and conditions in a window of a string
-/

namespace HashConditions

open Der Region

/-! ### Values in order, and the first one that is not -/

section Order

variable {α : Type} {encode : α → Bytes} {values front back : List α} {b : α}

/-- No encoding is smaller than the one before it. -/
def Ascending (encode : α → Bytes) (values : List α) : Prop :=
  (values.map encode).IsChain (· ≤ ·)

/-- The value behind those in front is the first one whose encoding is smaller than the one before
it. -/
structure Descent (encode : α → Bytes) (values front : List α) (b : α) (back : List α) : Prop where
  split : values = front ++ b :: back
  ascending : Ascending encode front
  smaller : ∃ a ∈ front.getLast?, encode b < encode a

/-- An empty string in front, as it stands for no encoding, changes nothing. -/
theorem Ascending.sorted (h : Ascending encode values) : Bytes.Sorted ([] :: values.map encode) :=
  Bytes.sorted_cons.mpr ⟨fun bs _ => Bytes.lexLe_nil bs, Bytes.sorted_iff_isChain.mpr h⟩

theorem Descent.not_ascending (h : Descent encode values front b back) :
    ¬Ascending encode values := by
  obtain ⟨rfl, -, a, last, smaller⟩ := h
  rw [Ascending, List.map_append, List.isChain_append]
  rintro ⟨-, -, joined⟩
  have le := joined (encode a) (by simp [Option.mem_def.mp last]) (encode b) rfl
  exact List.not_le.mpr smaller le

/-- Values out of order have a first one that is smaller than the one before it. -/
theorem exists_descent (h : ¬Ascending encode values) :
    ∃ front b back, Descent encode values front b back := by
  -- The induction goes from the front, so a descent behind the first value is the first one only
  -- if the second value is no smaller.
  induction values with
  | nil => exact absurd .nil h
  | cons a values ih =>
    cases values with
    | nil => exact absurd (.singleton _) h
    | cons b values =>
      by_cases le : encode a ≤ encode b
      · have rest : ¬Ascending encode (b :: values) := fun rest => h (.cons_cons le rest)
        obtain ⟨front, c, back, split, ascending, d, last, smaller⟩ := ih rest
        cases front with
        | nil => exact nomatch last
        | cons e front =>
          obtain ⟨rfl, rfl⟩ := List.cons.inj split
          refine ⟨a :: b :: front, c, back, rfl, .cons_cons le ascending, d, ?_, smaller⟩
          rw [List.getLast?_cons_cons]
          exact last
      · exact ⟨[a], b, values, rfl, .singleton _, a, rfl, List.not_le.mp le⟩

end Order

/-! ### The reader of sets at a cursor -/

namespace Der.Region

variable {α : Type} {kind : Announced} {field : String} {n : Nat}
  {make : (found : Choice Cursor) → size found.inside < n → Except Malformed α}
  {c : Cursor} {hc : size c ≤ n} {previous : Bytes}

/-- **The first descent is reported.** Whatever stands behind a value that is smaller than the one
before it is not read. -/
theorem setOf_of_descent (encode : α → Bytes) {front : List α} {b : α} {s : Bytes}
    (reads : ∀ a ∈ front ++ [b], ReadsFrom kind make (encode a) a)
    (sorted : Bytes.Sorted (previous :: front.map encode))
    (descends : Bytes.lexLe ((front.map encode).getLastD previous) (encode b) = false)
    (hrest : c.rest = (front.map encode).flatten ++ (encode b ++ s)) :
    setOf kind field n make c hc previous =
      .error ⟨.unsortedSet, field, c.offset + ((front.map encode).flatten.length : Nat)⟩ := by
  induction front generalizing c previous with
  | nil =>
    have spans : c.Spans (encode b) ⟨c.offset + (encode b).length, s⟩ := ⟨hrest, rfl⟩
    obtain ⟨hd, round⟩ := setOf_of_spans (reads b (List.mem_singleton_self b)) spans
    have smaller : ¬Bytes.lexLe previous (encode b) = true := Bool.eq_false_iff.mp descends
    rw [round, if_neg smaller]
    simp
  | cons a front ih =>
    rw [List.map_cons, Bytes.sorted_cons_cons] at sorted
    obtain ⟨le, sorted⟩ := sorted
    rw [List.map_cons, List.flatten_cons, List.append_assoc] at hrest
    have spans : c.Spans (encode a)
        ⟨c.offset + (encode a).length, (front.map encode).flatten ++ (encode b ++ s)⟩ :=
      ⟨hrest, rfl⟩
    obtain ⟨hd, round⟩ := setOf_of_spans (reads a (List.mem_cons_self ..)) spans
    rw [round, if_pos le, ih (fun x hx => reads x (List.mem_cons_of_mem _ hx)) sorted ?_ rfl]
    · simp [Except.map, Int.add_assoc]
    · rwa [List.map_cons, List.getLastD_cons] at descends

end Der.Region

/-! ### Sets in windows of a string -/

/-- Values in order are read. Otherwise one of them is the first that is smaller than the one before
it, and the place where it starts is reported. -/
structure ReadsInOrder {α : Type} (encode : α → Bytes) (values : List α) (field : String)
    (start : Int) (result : Except Window.Error (List α)) : Prop where
  in_order : Ascending encode values → result = .ok values
  exists_first : ¬Ascending encode values ↔ ∃ front b back, Descent encode values front b back
  out_of_order : ∀ front b back, Descent encode values front b back →
    result = .error (.malformed
      ⟨.unsortedSet, field, start + ((front.map encode).flatten.length : Nat)⟩)

/-- Values that are read back make a set that is read in order. -/
theorem readsInOrder_setOf {α : Type} {kind : Announced} {field : String} {n : Nat}
    {make : (found : Choice Cursor) → size found.inside < n → Except Malformed α} {c : Cursor}
    {hc : size c ≤ n} (encode : α → Bytes) {values : List α}
    (reads : ∀ a ∈ values, ReadsFrom kind make (encode a) a)
    (hrest : c.rest = (values.map encode).flatten) :
    ReadsInOrder encode values field c.offset
      ((setOf kind field n make c hc []).mapError .malformed) where
  in_order ascending := by
    rw [setOf_of_sorted encode reads ascending.sorted hrest]
    rfl
  exists_first := by
    refine ⟨exists_descent, ?_⟩
    rintro ⟨front, b, back, descent⟩
    exact descent.not_ascending
  out_of_order := by
    rintro front b back ⟨rfl, ascending, a, last, smaller⟩
    have descends : Bytes.lexLe ((front.map encode).getLastD []) (encode b) = false := by
      rw [List.getLastD_eq_getLast?, List.getLast?_map, Option.mem_def.mp last]
      exact Bytes.lexLe_eq_false_iff.mpr smaller
    have ahead : c.rest = (front.map encode).flatten ++
        (encode b ++ (back.map encode).flatten) := by
      rw [hrest, List.map_append, List.flatten_append, List.map_cons, List.flatten_cons]
    have reached : ∀ x ∈ front ++ [b], ReadsFrom kind make (encode x) x := by
      intro x hx
      refine reads x ?_
      rw [List.append_cons]
      exact List.mem_append_left _ hx
    rw [setOf_of_descent encode reached ascending.sorted descends ahead]
    rfl

section Sets

variable {ρ ε : Type} [Region ρ ε]

/-- The fulfillments from the cursor on. The encoding before the cursor is empty if there is
none. -/
def Fulfillment.readSet (field : String) (c : ρ) (previous : Bytes) :
    Except ε (List Fulfillment) :=
  setOf .fulfillment field (size c) (fun child _ => ofChoice child) c (Nat.le_refl _) previous

/-- The conditions from the cursor on. The encoding before the cursor is empty if there is none. -/
def Condition.readSet (field : String) (c : ρ) (previous : Bytes) : Except ε (List Condition) :=
  setOf .condition field (size c) (fun child _ => ofChoice child) c (Nat.le_refl _) previous

end Sets

theorem Fulfillment.Constructible.readsFrom_encode {f : Fulfillment} {n : Nat}
    (made : f.Constructible) (short : f.encode.length < 256 ^ 4) :
    ReadsFrom .fulfillment
      (fun found (_ : size found.inside < n) => Fulfillment.ofChoice found) f.encode f := by
  intro c d spans
  have body := Nat.lt_trans f.length_body_lt short
  obtain ⟨found, hfound, after, type, content⟩ := choice_of_spans_encode spans body
  exact ⟨found, hfound, after, fun _ => made.readBack body type content⟩

theorem Condition.readsFrom_encode (cond : Condition) {n : Nat} :
    ReadsFrom .condition
      (fun found (_ : size found.inside < n) => Condition.ofChoice found) cond.encode cond := by
  intro c d spans
  obtain ⟨found, hfound, after, hmake⟩ := choice_of_spans_encode spans
  exact ⟨found, hfound, after, fun _ => hmake⟩

namespace Der.Window

variable {w : Window}

theorem fulfillments_eq (h : w.Inside) (field : String) (previous : Bytes) :
    Fulfillment.readSet field w previous =
      (Fulfillment.readSet field w.cursor previous).mapError .malformed := by
  have like := corresponds_cursor w.data
  refine Agree.eq_mapError (like.agree_setOf ?_ ⟨rfl, h, rfl⟩)
  intro _ _ _ _ found
  exact like.agree_fulfillmentOfChoice found

theorem conditions_eq (h : w.Inside) (field : String) (previous : Bytes) :
    Condition.readSet field w previous =
      (Condition.readSet field w.cursor previous).mapError .malformed := by
  have like := corresponds_cursor w.data
  refine Agree.eq_mapError (like.agree_setOf ?_ ⟨rfl, h, rfl⟩)
  intro _ _ _ _ found
  exact like.agree_conditionOfChoice found

theorem offset_cursor (h : w.Inside) : (w.cursor.offset : Int) = w.offset :=
  Int.toNat_of_nonneg h.1

/-- **Sets are read exactly if they are sorted.** The octets of a window are the encodings of
fulfillments that builders make, or those of conditions, one after the other. Then the reader gives
these values, in their order, if no encoding is smaller than the one before it. Otherwise it fails,
and the position is that of the first encoding that is. -/
theorem readSet_of_contents (inside : w.Inside) (field : String) :
    (∀ fs : List Fulfillment, (∀ f ∈ fs, Fulfillment.Constructible f) →
        w.contents = (fs.map Fulfillment.encode).flatten → w.contents.length < 2 ^ 32 →
          ReadsInOrder Fulfillment.encode fs field w.offset (Fulfillment.readSet field w [])) ∧
      ∀ cs : List Condition, w.contents = (cs.map Condition.encode).flatten →
        ReadsInOrder Condition.encode cs field w.offset (Condition.readSet field w []) := by
  rw [contents_eq_rest inside, ← offset_cursor inside]
  constructor
  · intro fs made hrest short
    rw [fulfillments_eq inside]
    refine readsInOrder_setOf Fulfillment.encode ?_ hrest
    intro f hf
    have within : f.encode.length ≤ (fs.map Fulfillment.encode).flatten.length :=
      (List.sublist_flatten_of_mem (List.mem_map_of_mem hf)).length_le
    rw [← hrest] at within
    exact (made f hf).readsFrom_encode (Nat.lt_of_le_of_lt within short)
  · intro cs hrest
    rw [conditions_eq inside]
    exact readsInOrder_setOf Condition.encode (fun cond _ => cond.readsFrom_encode) hrest

/-- A preimage of one octet and an empty one, whose encoding is the smaller of the two. -/
theorem readSet_of_contents_preimages :
    ∃ f g, Fulfillment.Constructible f ∧ Fulfillment.Constructible g ∧
      (ofBytes [0xA0, 3, 0x80, 1, 1, 0xA0, 2, 0x80, 0]).contents = f.encode ++ g.encode ∧
      Fulfillment.readSet "subfulfillments" (ofBytes [0xA0, 3, 0x80, 1, 1, 0xA0, 2, 0x80, 0]) [] =
        .error (.malformed ⟨.unsortedSet, "subfulfillments", 5⟩) := by
  have first : (Fulfillment.ofPreimage [1]).toOption.map Fulfillment.encode =
      some [0xA0, 3, 0x80, 1, 1] := by
    decide +kernel
  have second : (Fulfillment.ofPreimage []).toOption.map Fulfillment.encode =
      some [0xA0, 2, 0x80, 0] := by
    decide +kernel
  obtain ⟨f, hf, f_written⟩ := exists_ok_of_map_toOption first
  obtain ⟨g, hg, g_written⟩ := exists_ok_of_map_toOption second
  have f_made := Fulfillment.Constructible.preimage hf
  have g_made := Fulfillment.Constructible.preimage hg
  have contents : (ofBytes [0xA0, 3, 0x80, 1, 1, 0xA0, 2, 0x80, 0]).contents =
      ([f, g].map Fulfillment.encode).flatten := by
    simp only [List.map, f_written, g_written]
    rfl
  have made : ∀ x ∈ [f, g], Fulfillment.Constructible x := by
    simp only [List.forall_mem_cons]
    exact ⟨f_made, g_made, List.forall_mem_nil _⟩
  have descent : Descent Fulfillment.encode [f, g] [f] g [] := by
    refine ⟨rfl, .singleton _, f, rfl, ?_⟩
    rw [f_written, g_written]
    decide
  have read := (readSet_of_contents (inside_ofBytes _) "subfulfillments").1 [f, g] made contents
    (by decide)
  refine ⟨f, g, f_made, g_made, ?_, ?_⟩
  · rw [contents]
    simp
  · rw [read.out_of_order _ _ _ descent]
    simp only [List.map, f_written]
    rfl

end Der.Window

end HashConditions
