import HashConditions.Proofs.SetOrder

/-!
# Reading ends, and does not amplify

A reader that needs another fulfillment, or another round of a set, calls itself. Here the calls are
handed over from outside (`Calls`), and `Calls.unfold` does what a reader does up to them. The
readers are what such an unfolding makes of themselves (`readers_unfold`), and each call is on a
smaller region than the one it is made for: to know the answers up to some size, it is enough to
know the calls below it (`Calls.AgreeBelow.unfold`).

So after as many unfoldings as there are octets the calls left at the bottom do not matter, and any
might stand there, among others ones that give up. Reading takes no more levels than that, whether
it accepts the octets or not.

What was read is no larger than its encoding either. Each node of a fulfillment has two headers of
its own, which are two octets each at least, so four octets go to each node
(`Fulfillment.nodes_le_length_encode`). The octets are what bounds the tree because an accepted
string is the encoding of what it is read as.

## Main definitions

* `Calls`, `Calls.unfold` — readers up to the calls they make
* `Calls.AgreeBelow` — the same answers on regions of less than a size
* `Fulfillment.nodes` — fulfillments and open conditions at every depth

## Main results

* `Calls.agreeBelow_iterate` — unfolding as often as a region has octets is enough
* `Fulfillment.decode_bounded` — whole encodings of fulfillments
-/

namespace HashConditions

open Der Region

/-! ### Readers up to their calls -/

/-- What readers of fulfillments call: the reader of one fulfillment from its header on, and those
of sets from a place on, behind an encoding that they continue. -/
structure Calls (ρ ε : Type) where
  fulfillment : Choice ρ → Except ε Fulfillment
  fulfillments : ρ → Bytes → Except ε (List Fulfillment)
  conditions : ρ → Bytes → Except ε (List Condition)

namespace Calls

variable {ρ ε : Type} [Region ρ ε]

/-- One round over a set: an element is completed and compared with the one before it, and the rest
is left to another round. -/
def round {α : Type} (kind : Announced) (field : String) (make : Choice ρ → Except ε α)
    (rest : ρ → Bytes → Except ε (List α)) (c : ρ) (previous : Bytes) : Except ε (List α) :=
  if atEnd c then .ok []
  else
    choice c kind >>= fun found =>
      make found >>= fun value =>
        if Bytes.lexLe previous (upTo c found.after) then
          (rest found.after (upTo c found.after)).map (value :: ·)
        else .error (fail c .unsortedSet field)

/-- The fulfillment whose parts the content of an element holds, as far as they are not left to
calls. -/
def content (calls : Calls ρ ε) (found : Choice ρ) : Except ε Fulfillment :=
  match found.type with
  | .preimageSha256 => Fulfillment.readPreimage found
  | .prefixSha256 =>
    Fulfillment.readPrefixParts found.inside >>= fun parts =>
      calls.fulfillment parts.sub >>= fun sub =>
        finish parts.sub.after "subfulfillment" >>= fun _ =>
          Fulfillment.conclude found parts.wrapper.after
            (Fulfillment.ofPrefix parts.lead parts.maxMessageLength sub)
  | .thresholdSha256 =>
    element found.inside (constructedTag 0) "subfulfillments" >>= fun first =>
      calls.fulfillments first.inside [] >>= fun subfulfillments =>
        element first.after (constructedTag 1) "subconditions" >>= fun second =>
          calls.conditions second.inside [] >>= fun subconditions =>
            Fulfillment.conclude found second.after
              (Fulfillment.ofThreshold subconditions subfulfillments)
  | .rsaSha256 => Fulfillment.readRsa found
  | .ed25519Sha256 => Fulfillment.readEd25519 found

/-- What readers do that are left with these calls. -/
def unfold (calls : Calls ρ ε) : Calls ρ ε where
  fulfillment := calls.content
  fulfillments := round .fulfillment "subfulfillments" calls.fulfillment calls.fulfillments
  conditions := round .condition "subconditions" Condition.ofChoice calls.conditions

/-- Calls that are not answered. -/
def giveUp (e : ε) : Calls ρ ε where
  fulfillment _ := .error e
  fulfillments _ _ := .error e
  conditions _ _ := .error e

/-- The readers themselves. -/
def readers : Calls ρ ε where
  fulfillment := Fulfillment.ofChoice
  fulfillments := Fulfillment.readSet "subfulfillments"
  conditions := Condition.readSet "subconditions"

/-- A reader of sets is one round in front of itself. -/
theorem round_eq_setOf {α : Type} {kind : Announced} {field : String}
    {make : Choice ρ → Except ε α} (c : ρ) (previous : Bytes) :
    round kind field make
        (fun d bs => setOf kind field (size d) (fun found _ => make found) d (Nat.le_refl _) bs)
        c previous =
      setOf kind field (size c) (fun found _ => make found) c (Nat.le_refl _) previous := by
  rw [round]
  by_cases more : atEnd c = true
  · rw [if_pos more, setOf_of_atEnd more]
  · rw [if_neg more]
    rcases eq_error_or_ok (choice c kind) with ⟨e, he⟩ | ⟨found, hfound⟩
    · rw [setOf_of_error more he, he]
      rfl
    · rw [setOf_of_choice more hfound, hfound, setOf_bound (Nat.le_refl _)]
      rfl

theorem content_readers (found : Choice ρ) :
    (readers : Calls ρ ε).content found = Fulfillment.ofChoice found := by
  obtain ⟨ofPreimage, ofRsa, ofEd25519⟩ := Fulfillment.ofChoice_simple found
  rw [content]
  cases type : found.type with
  | preimageSha256 => exact (ofPreimage type).symm
  | prefixSha256 => exact (Fulfillment.ofChoice_prefixed type).symm
  | thresholdSha256 => exact (Fulfillment.ofChoice_threshold type).symm
  | rsaSha256 => exact (ofRsa type).symm
  | ed25519Sha256 => exact (ofEd25519 type).symm

/-- **The readers call themselves.** Nothing changes if the calls of the readers are unfolded. -/
theorem readers_unfold : (readers : Calls ρ ε).unfold = readers := by
  have contents : (readers : Calls ρ ε).content = Fulfillment.ofChoice :=
    funext content_readers
  have fulfillments : round .fulfillment "subfulfillments" (readers : Calls ρ ε).fulfillment
      (readers : Calls ρ ε).fulfillments = Fulfillment.readSet "subfulfillments" :=
    funext fun c => funext fun previous => round_eq_setOf c previous
  have conditions : round .condition "subconditions" Condition.ofChoice
      (readers : Calls ρ ε).conditions = Condition.readSet "subconditions" :=
    funext fun c => funext fun previous => round_eq_setOf c previous
  rw [unfold, contents, fulfillments, conditions]
  rfl

/-! ### Calls are on smaller regions -/

/-- Two collections of calls give the same answers on regions of less than `n` octets. -/
structure AgreeBelow (n : Nat) (calls others : Calls ρ ε) : Prop where
  fulfillment : ∀ found : Choice ρ, size found.inside < n →
    calls.fulfillment found = others.fulfillment found
  fulfillments : ∀ (c : ρ) previous, size c < n →
    calls.fulfillments c previous = others.fulfillments c previous
  conditions : ∀ (c : ρ) previous, size c < n →
    calls.conditions c previous = others.conditions c previous

variable {n : Nat} {calls others : Calls ρ ε}

theorem agreeBelow_zero (calls others : Calls ρ ε) : AgreeBelow 0 calls others where
  fulfillment _ h := absurd h (Nat.not_lt_zero _)
  fulfillments _ _ h := absurd h (Nat.not_lt_zero _)
  conditions _ _ h := absurd h (Nat.not_lt_zero _)

/-- A round looks at elements inside its region and leaves a smaller region to the next one. -/
theorem round_congr {α : Type} {kind : Announced} {field : String}
    {make make' : Choice ρ → Except ε α} {rest rest' : ρ → Bytes → Except ε (List α)} {c : ρ}
    (hmake : ∀ found : Choice ρ, size found.inside < size c → make found = make' found)
    (hrest : ∀ (d : ρ) previous, size d < size c → rest d previous = rest' d previous)
    (previous : Bytes) :
    round kind field make rest c previous = round kind field make' rest' c previous := by
  rw [round, round]
  rcases eq_error_or_ok (choice c kind) with ⟨e, he⟩ | ⟨found, hfound⟩
  · rw [he]
    rfl
  · obtain ⟨inside, after⟩ := size_of_choice hfound
    rw [hfound]
    simp only [bind, Except.bind, hmake found inside, hrest found.after _ after]

theorem AgreeBelow.content (agree : AgreeBelow n calls others) {found : Choice ρ}
    (le : size found.inside ≤ n) : calls.content found = others.content found := by
  rw [Calls.content, Calls.content]
  cases found.type with
  | prefixSha256 =>
    rcases eq_error_or_ok (Fulfillment.readPrefixParts found.inside : Except ε _) with
      ⟨e, he⟩ | ⟨parts, hparts⟩
    · simp only [he, bind, Except.bind]
    · have smaller := Fulfillment.size_of_readPrefixParts hparts
      simp only [hparts, bind, Except.bind,
        agree.fulfillment parts.sub (Nat.lt_of_lt_of_le smaller le)]
  | thresholdSha256 =>
    rcases eq_error_or_ok (element found.inside (constructedTag 0) "subfulfillments" :
        Except ε _) with ⟨e, he⟩ | ⟨first, hfirst⟩
    · simp only [he, bind, Except.bind]
    · obtain ⟨inside, after⟩ := size_of_element hfirst
      simp only [hfirst, bind, Except.bind,
        agree.fulfillments first.inside [] (Nat.lt_of_lt_of_le inside le)]
      rcases eq_error_or_ok (element first.after (constructedTag 1) "subconditions" :
          Except ε _) with ⟨e, he⟩ | ⟨second, hsecond⟩
      · simp only [he]
      · have within := (size_of_element hsecond).1
        have below : size second.inside < n := by omega
        simp only [hsecond, agree.conditions second.inside [] below]
  | _ => rfl

/-- **Calls are on smaller regions.** What readers answer on a region is decided by what the calls
answer on smaller ones. -/
theorem AgreeBelow.unfold (agree : AgreeBelow n calls others) :
    AgreeBelow (n + 1) calls.unfold others.unfold where
  fulfillment _ h := agree.content (Nat.le_of_lt_succ h)
  fulfillments c previous h := by
    have le := Nat.le_of_lt_succ h
    exact round_congr (fun found inside => agree.fulfillment found (Nat.lt_of_lt_of_le inside le))
      (fun d bs after => agree.fulfillments d bs (Nat.lt_of_lt_of_le after le)) previous
  conditions c previous h := by
    have le := Nat.le_of_lt_succ h
    exact round_congr (fun _ _ => rfl)
      (fun d bs after => agree.conditions d bs (Nat.lt_of_lt_of_le after le)) previous

/-- Unfolded as often as a region has octets, any calls answer like the readers. -/
theorem agreeBelow_iterate (n : Nat) (calls : Calls ρ ε) :
    AgreeBelow n (Calls.unfold^[n] calls) readers := by
  induction n with
  | zero => exact agreeBelow_zero _ _
  | succ n ih =>
    rw [Function.iterate_succ_apply', ← readers_unfold]
    exact ih.unfold

end Calls

/-! ### Nodes and octets -/

/-- An element has a header of two octets at least. -/
theorem Der.length_add_two_le (tag : UInt8) (content : Bytes) :
    content.length + 2 ≤ (encodeElement tag content).length := by
  have length : 0 < (encodeLength content.length).length := by
    rw [encodeLength]
    split
    · exact Nat.one_pos
    · exact Nat.succ_pos _
  rw [length_encodeElement]
  omega

theorem Bytes.length_flatten_sortCanonical (items : List Bytes) :
    (Bytes.sortCanonical items).flatten.length = items.flatten.length :=
  (Bytes.sortCanonical_perm items).flatten.length_eq

theorem Condition.four_le_length_encode (c : Condition) : 4 ≤ c.encode.length := by
  have outer := length_add_two_le (constructedTag c.type.code) c.body
  have inner := length_add_two_le (primitiveTag 0) c.fingerprint
  rw [c.encode_eq]
  rw [body, List.length_append] at outer
  rw [body]
  omega

theorem Condition.length_le_length_flatten_encode (cs : List Condition) :
    4 * cs.length ≤ (cs.map encode).flatten.length := by
  induction cs with
  | nil => exact Nat.le_refl 0
  | cons c cs ih =>
    have head := four_le_length_encode c
    rw [List.map_cons, List.flatten_cons, List.length_append, List.length_cons]
    omega

namespace Fulfillment

mutual

/-- The number of fulfillments in a fulfillment and of conditions that it leaves open, at every
depth. -/
def nodes : Fulfillment → Nat
  | preimage .. => 1
  | prefixed _ _ sub _ => 1 + nodes sub
  | threshold subconditions subfulfillments _ =>
    1 + subconditions.length + nodesAll subfulfillments
  | rsa .. => 1
  | ed25519 .. => 1

/-- The number of nodes in the members of a list. -/
def nodesAll : List Fulfillment → Nat
  | [] => 0
  | f :: fs => nodes f + nodesAll fs

end

mutual

/-- **Four octets for each node.** -/
theorem nodes_le_length_encode : ∀ f : Fulfillment, 4 * f.nodes ≤ f.encode.length
  | preimage bs _ => by
    have outer := length_add_two_le (constructedTag 0) (encodeElement (primitiveTag 0) bs)
    have inner := length_add_two_le (primitiveTag 0) bs
    rw [nodes, encode]
    omega
  | prefixed lead limit sub _ => by
    have ih := nodes_le_length_encode sub
    have wrapper := length_add_two_le (constructedTag 2) sub.encode
    have first := length_add_two_le (primitiveTag 0) lead
    rw [nodes, encode]
    refine Nat.le_trans ?_ (length_add_two_le _ _)
    simp only [List.length_append]
    omega
  | threshold cs fs _ => by
    have ih := nodesAll_le_length_encode fs
    have left := Condition.length_le_length_flatten_encode cs
    have first := length_add_two_le (constructedTag 0)
      (Bytes.sortCanonical (encodeAll fs)).flatten
    have second := length_add_two_le (constructedTag 1)
      (Bytes.sortCanonical (cs.map Condition.encode)).flatten
    rw [Bytes.length_flatten_sortCanonical] at first second
    rw [nodes, encode]
    refine Nat.le_trans ?_ (length_add_two_le _ _)
    rw [List.length_append]
    omega
  | rsa modulus _ signature _ => by
    have first := length_add_two_le (primitiveTag 0) (Contents.modulus modulus)
    rw [nodes, encode]
    refine Nat.le_trans ?_ (length_add_two_le _ _)
    rw [List.length_append]
    omega
  | ed25519 publicKey signature _ => by
    have first := length_add_two_le (primitiveTag 0) publicKey
    rw [nodes, encode]
    refine Nat.le_trans ?_ (length_add_two_le _ _)
    rw [List.length_append]
    omega

theorem nodesAll_le_length_encode : ∀ fs : List Fulfillment,
    4 * nodesAll fs ≤ (encodeAll fs).flatten.length
  | [] => Nat.le_refl 0
  | f :: fs => by
    have head := nodes_le_length_encode f
    have tail := nodesAll_le_length_encode fs
    rw [nodesAll, encodeAll, List.flatten_cons, List.length_append]
    omega

end

/-! ### Whole encodings -/

/-- The fulfillment that an octet string is the encoding of, if its content is left to a call. -/
def decodeBy (calls : Calls Cursor Malformed) (bs : Bytes) : Except Malformed Fulfillment := do
  let start := Cursor.ofBytes bs
  let (fulfillment, c) ←
    (reading start (choice start .fulfillment) Choice.after calls.fulfillment).value
  finish c "fulfillment"
  return fulfillment

/-- Calls that answer like the readers below the length of an octet string are enough for it. -/
theorem decodeBy_of_agreeBelow {calls : Calls Cursor Malformed} {bs : Bytes}
    (agree : calls.AgreeBelow bs.length Calls.readers) : decodeBy calls bs = decode bs := by
  rw [decodeBy, decode, read]
  rcases eq_error_or_ok (choice (Cursor.ofBytes bs) .fulfillment) with ⟨e, he⟩ | ⟨found, hfound⟩
  · simp only [he, reading]
  · have inside := (size_of_choice hfound).1
    have same : calls.fulfillment found = ofChoice found := agree.fulfillment found inside
    simp only [hfound, reading, same]

/-- **Decoding ends, and does not amplify.** The readers do the same if their calls are unfolded,
and what an unfolding answers on a region is decided by the calls on smaller ones. So a string of
`n` octets is decoded by any calls at all that are unfolded `n` times. A fulfillment that is decoded
has no more nodes than a fourth of the octets. -/
theorem decode_bounded (bs : Bytes) :
    (Calls.readers : Calls Cursor Malformed).unfold = Calls.readers ∧
      (∀ (n : Nat) (calls others : Calls Cursor Malformed), calls.AgreeBelow n others →
        calls.unfold.AgreeBelow (n + 1) others.unfold) ∧
      (∀ calls, decodeBy (Calls.unfold^[bs.length] calls) bs = decode bs) ∧
      ∀ f, decode bs = .ok f → 4 * f.nodes ≤ bs.length := by
  refine ⟨Calls.readers_unfold, fun _ _ _ agree => agree.unfold, fun calls => ?_, fun f h => ?_⟩
  · exact decodeBy_of_agreeBelow (Calls.agreeBelow_iterate bs.length calls)
  · rw [← (encode_of_decode h).1]
    exact f.nodes_le_length_encode

/-- A prefix over a preimage has two nodes and thirteen octets. Calls that give up do not decode it,
and they do after thirteen unfoldings. -/
theorem decode_bounded_prefixed :
    ∃ f, decode prefixedSample = .ok f ∧ f.nodes = 2 ∧ 4 * f.nodes ≤ 13 ∧
      decodeBy (.giveUp ⟨.unexpectedEnd, "", 0⟩) prefixedSample = .error ⟨.unexpectedEnd, "", 0⟩ ∧
      decodeBy (Calls.unfold^[13] (.giveUp ⟨.unexpectedEnd, "", 0⟩)) prefixedSample = .ok f ∧
      (Calls.giveUp ⟨.unexpectedEnd, "", 0⟩ : Calls Cursor Malformed).unfold.AgreeBelow 1
        Calls.readers.unfold := by
  have reads : (decode prefixedSample).toOption.map nodes = some 2 := by
    decide +kernel
  obtain ⟨f, hf, count⟩ := exists_ok_of_map_toOption reads
  obtain ⟨-, step, levels, octets⟩ := decode_bounded prefixedSample
  exact ⟨f, hf, count, octets f hf, rfl, (levels _).trans hf,
    step 0 _ _ (Calls.agreeBelow_zero _ _)⟩

end Fulfillment

end HashConditions
