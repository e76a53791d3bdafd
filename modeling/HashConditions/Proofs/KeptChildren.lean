import HashConditions.Proofs.Replacing
import HashConditions.Proofs.FulfillmentCodec

/-!
# The order of children

A threshold keeps its children in the order of their encodings, so it does not matter in which order
they were handed over. Sorting is stable: children with one encoding would stay in the order they
were given in, and two thresholds over them could differ. No two children have one encoding, though,
neither two conditions nor two fulfillments, since each is read back from its own
(`Constructible.encode_inj`). So the lists that are kept are the same, and with them the whole
fulfillment (`ofThreshold_perm`).

Writing sorts the encodings of the children once more, and changes nothing by that.
-/

namespace HashConditions

open Der

namespace Fulfillment

variable {f g : Fulfillment} {left left' : List Condition} {fulfilled fulfilled' : List Fulfillment}

/-- Two fulfillments that builders made have one encoding only if they are the same. -/
theorem Constructible.encode_inj (hf : f.Constructible) (hg : g.Constructible)
    (short : f.encode.length < 2 ^ 32) (h : f.encode = g.encode) : f = g := by
  have short_f : f.body.length < 256 ^ 4 := Nat.lt_trans f.length_body_lt short
  have short_g : g.body.length < 256 ^ 4 := Nat.lt_trans g.length_body_lt (h ▸ short)
  have read_f : decode f.encode = .ok f := decode_eq_ok_iff.mpr ⟨hf, short_f, rfl⟩
  have read_g : decode f.encode = .ok g := decode_eq_ok_iff.mpr ⟨hg, short_g, h.symm⟩
  exact Except.ok.inj (read_f.symm.trans read_g)

/-- A threshold, or the reason why there is none, is the same for every order of its children. -/
theorem ofThreshold_eq_of_perm (made : ∀ g ∈ fulfilled, g.Constructible)
    (short : ∀ g ∈ fulfilled, g.encode.length < 2 ^ 32) (hl : left'.Perm left)
    (hf : fulfilled'.Perm fulfilled) :
    ofThreshold left' fulfilled' = ofThreshold left fulfilled := by
  have same_left : Bytes.sortBy Condition.encode left = Bytes.sortBy Condition.encode left' :=
    Bytes.sortBy_eq_of_perm _ (fun _ _ _ _ => Condition.encode_injective) hl.symm
  have same_fulfilled : Bytes.sortBy encode fulfilled = Bytes.sortBy encode fulfilled' :=
    Bytes.sortBy_eq_of_perm _
      (fun x hx y hy => (made x hx).encode_inj (made y hy) (short x hx)) hf.symm
  rw [ofThreshold, ofThreshold, same_left, same_fulfilled, hf.isEmpty_eq]

/-- A threshold that keeps the given children, all of them and no others, in the order of their
encodings; and that is also the order in which they are written. -/
structure KeepsInOrder (f : Fulfillment) (left : List Condition) (fulfilled : List Fulfillment) :
    Prop where
  type : f.type = .thresholdSha256
  leftOpen_perm : f.leftOpen.Perm left
  children_perm : f.children.Perm fulfilled
  leftOpen_sorted : Bytes.Sorted (f.leftOpen.map Condition.encode)
  children_sorted : Bytes.Sorted (f.children.map encode)
  encode_eq : f.encode = encodeElement (constructedTag 2)
    (encodeElement (constructedTag 0) (f.children.map encode).flatten ++
      encodeElement (constructedTag 1) (f.leftOpen.map Condition.encode).flatten)

theorem keepsInOrder_of_ofThreshold (h : ofThreshold left fulfilled = .ok f) :
    f.KeepsInOrder left fulfilled := by
  obtain ⟨-, c, -, rfl⟩ := ofThreshold_eq_ok_iff.mp h
  have left_sorted := Bytes.sorted_map_sortBy Condition.encode left
  have fulfilled_sorted := Bytes.sorted_map_sortBy encode fulfilled
  refine ⟨rfl, Bytes.sortBy_perm _ _, Bytes.sortBy_perm _ _, left_sorted, fulfilled_sorted, ?_⟩
  rw [encode, encodeAll_eq_map, Bytes.sortCanonical_of_sorted fulfilled_sorted,
    Bytes.sortCanonical_of_sorted left_sorted]
  rfl

/-- **The order of children does not matter.** Whatever order the children of a threshold are handed
over in, the same fulfillment is made of them, or none is for the same reason. It keeps exactly
those children, and keeps and writes them in the order of their encodings. -/
theorem ofThreshold_perm (made : ∀ g ∈ fulfilled, g.Constructible)
    (short : ∀ g ∈ fulfilled, g.encode.length < 2 ^ 32) (hl : left'.Perm left)
    (hf : fulfilled'.Perm fulfilled) :
    (∃ why, ofThreshold left fulfilled = .error why ∧
        ofThreshold left' fulfilled' = .error why) ∨
      ∃ f, ofThreshold left fulfilled = .ok f ∧ ofThreshold left' fulfilled' = .ok f ∧
        f.KeepsInOrder left fulfilled := by
  have same := ofThreshold_eq_of_perm made short hl hf
  cases built : ofThreshold left fulfilled with
  | error why => exact .inl ⟨why, rfl, same.trans built⟩
  | ok f => exact .inr ⟨f, rfl, same.trans built, keepsInOrder_of_ofThreshold built⟩

/-- Two signatures under one key, and two conditions that are left open. Both lists are handed over
the other way round. -/
theorem ofThreshold_perm_reversed :
    ∃ (c d : Condition) (f g root : Fulfillment), c ≠ d ∧ f.encode ≠ g.encode ∧
      ofThreshold [c, d] [f, g] = .ok root ∧ ofThreshold [d, c] [g, f] = .ok root ∧
        root.KeepsInOrder [c, d] [f, g] := by
  obtain ⟨c, -, signed, -⟩ := exists_threshold_equalOctets
  obtain ⟨-, -, c', derived, same⟩ := ofPublicKey_eq_ok_iff.mp (signed 0)
  obtain ⟨-, type, -, cost, -⟩ := Condition.ofPublicKey_eq_ok_iff.mp derived
  obtain rfl : c' = c := congrArg condition same
  have other : c' ≠ listingRsa := by
    rintro rfl
    cases type
  have made : ∀ g ∈ [equalOctets 0 c', equalOctets 1 c'], g.Constructible := by
    rw [List.forall_mem_cons, List.forall_mem_singleton]
    exact ⟨.ed25519 (signed 0), .ed25519 (signed 1)⟩
  have short : ∀ g ∈ [equalOctets 0 c', equalOctets 1 c'], g.encode.length < 2 ^ 32 := by
    rw [List.forall_mem_cons, List.forall_mem_singleton, equalOctets, equalOctets, encode, encode]
    decide
  have differ : (equalOctets 0 c').encode ≠ (equalOctets 1 c').encode := by
    rw [equalOctets, equalOctets, encode, encode]
    decide
  obtain ⟨e, he⟩ : ∃ e, Condition.ofThreshold (2 : Nat)
      [c', listingRsa, c', c'] = .ok e := by
    refine Condition.exists_ofThreshold (Nat.succ_pos 1) (Nat.le_add_left 2 2) ?_
    simp only [List.map_cons, List.map_nil, cost]
    show Cost.total [131072, 0, 131072, 131072] + Cost.overhead * 4 ≤ maxQuantity
    decide
  have condition_of : (ofThreshold [c', listingRsa] [equalOctets 0 c', equalOctets 1 c']).map
      condition = .ok e :=
    (map_condition_ofThreshold (List.cons_ne_nil _ _)).trans he
  obtain ⟨root, built, -⟩ := map_eq_ok_iff.mp condition_of
  refine ⟨c', listingRsa, equalOctets 0 c', equalOctets 1 c', root, other, differ, built, ?_⟩
  obtain ⟨why, failed, -⟩ | ⟨f, once, again, keeps⟩ :=
    ofThreshold_perm made short (.swap c' listingRsa [])
      (.swap (equalOctets 0 c') (equalOctets 1 c') [])
  · rw [built] at failed
    cases failed
  · obtain rfl : root = f := Except.ok.inj (built.symm.trans once)
    exact ⟨again, keeps⟩

end Fulfillment

end HashConditions
