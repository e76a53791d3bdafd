import HashConditions.Proofs.Choosing

/-!
# Replacing fulfillments inside a fulfillment

The condition of a fulfillment depends on the fulfillments inside it only through their conditions.
For one node that is a property of its builder: given children with the same conditions, it gets
through and derives the same condition (`Constructible.exists_rebuild`). The children of a threshold
are sorted by encodings that hold their signatures, so they may change places, but neither the
contents nor the cost nor the subtypes of the condition tell.

It then holds for whole trees. `replace` puts other fulfillments in the places of some that are
inside a fulfillment, as deep as one likes, and runs all builders above them again. If what is
replaced and what replaces it have the same condition, every builder gets through and the condition
of the whole stays (`condition_replace`). Signatures are an instance: none of them is part of a
condition, only their lengths are checked.

A place is the list of positions that lead to it from the root. It names an occurrence, since one
fulfillment may occur several times in a tree.

## Main results

* `Constructible.exists_rebuild` — one node over other children
* `Constructible.exists_replace` — a whole tree
* `exists_at?_of_replace` — what is put in is inside afterwards, as deep as what it replaced was
* `condition_replace` — the condition of the whole stays
-/

namespace HashConditions

namespace Fulfillment

variable {f g : Fulfillment}

/-! ### Nodes and their children -/

/-- The fulfillments directly inside a fulfillment, in the order in which it keeps them. -/
def children : Fulfillment → List Fulfillment
  | prefixed _ _ sub _ => [sub]
  | threshold _ subfulfillments _ => subfulfillments
  | _ => []

/-- The conditions directly inside a fulfillment that it leaves open, in the order in which it keeps
them. -/
def leftOpen : Fulfillment → List Condition
  | threshold subconditions _ _ => subconditions
  | _ => []

/-- The fulfillment at a place. -/
def at? : List Nat → Fulfillment → Option Fulfillment
  | [], f => some f
  | i :: place, f => f.children[i]?.bind (at? place)

/-- What the builder of a node makes of its other fields and of other children. -/
def rebuild : Fulfillment → List Fulfillment → Except Invalid Fulfillment
  | prefixed lead maxMessageLength _ _, [sub] => ofPrefix lead maxMessageLength sub
  | threshold subconditions _ _, subfulfillments => ofThreshold subconditions subfulfillments
  | f, _ => .ok f

theorem at?_cons_eq_some_iff {i : Nat} {place : List Nat} :
    f.at? (i :: place) = some g ↔ ∃ child, f.children[i]? = some child ∧ child.at? place = some g :=
  Option.bind_eq_some_iff

theorem sizeOf_lt_of_mem_children (h : g ∈ f.children) : sizeOf g < sizeOf f := by
  cases f with
  | prefixed lead maxMessageLength sub c =>
    obtain rfl := List.mem_singleton.mp h
    simp only [prefixed.sizeOf_spec]
    omega
  | threshold subconditions subfulfillments c =>
    have member : g ∈ subfulfillments := h
    have smaller := List.sizeOf_lt_of_mem member
    simp only [threshold.sizeOf_spec]
    omega
  | _ => exact absurd h List.not_mem_nil

/-- What holds of a fulfillment if it holds of its children holds of every fulfillment. -/
theorem childInduction {P : Fulfillment → Prop} (step : ∀ f, (∀ g ∈ f.children, P g) → P f)
    (f : Fulfillment) : P f :=
  step f fun g _ => childInduction step g
termination_by sizeOf f
decreasing_by exact sizeOf_lt_of_mem_children ‹_›

/-- Builders make a fulfillment from its own children again, and have made those. -/
theorem Constructible.rebuild_children (made : f.Constructible) :
    f.rebuild f.children = .ok f ∧ ∀ g ∈ f.children, g.Constructible := by
  have none : ∀ g ∈ ([] : List Fulfillment), g.Constructible :=
    fun _ h => absurd h List.not_mem_nil
  cases made with
  | preimage made =>
    obtain ⟨c, -, rfl⟩ := ofPreimage_eq_ok_iff.mp made
    exact ⟨rfl, none⟩
  | prefixed sub made =>
    have again := made
    obtain ⟨c, hc, rfl⟩ := ofPrefix_eq_ok_iff.mp made
    obtain ⟨⟨nonneg, -⟩, -⟩ := Condition.ofPrefix_eq_ok_iff.mp hc
    refine ⟨?_, fun g h => List.mem_singleton.mp h ▸ sub⟩
    rw [children, rebuild, nonneg]
    exact again
  | threshold subs made =>
    have again := ofThreshold_kept made
    obtain ⟨-, c, -, rfl⟩ := ofThreshold_eq_ok_iff.mp made
    exact ⟨again, fun g h => subs g ((Bytes.sortBy_perm encode _).mem_iff.mp h)⟩
  | rsa made =>
    obtain ⟨-, c, -, rfl⟩ := ofModulus_eq_ok_iff.mp made
    exact ⟨rfl, none⟩
  | ed25519 made =>
    obtain ⟨-, -, c, -, rfl⟩ := ofPublicKey_eq_ok_iff.mp made
    exact ⟨rfl, none⟩

/-- What is rebuilt from what builders made is made by builders. -/
theorem Constructible.of_rebuild (made : f.Constructible) {gs : List Fulfillment}
    (subs : ∀ g ∈ gs, g.Constructible) (h : f.rebuild gs = .ok g) : g.Constructible := by
  rw [rebuild.eq_def] at h
  split at h
  · exact .prefixed (subs _ List.mem_cons_self) h
  · exact .threshold subs h
  · cases h
    exact made

theorem map_condition_ofPrefix (lead : Bytes) (maxMessageLength : Int) (sub : Fulfillment) :
    (ofPrefix lead maxMessageLength sub).map condition =
      Condition.ofPrefix lead maxMessageLength sub.condition := by
  rw [ofPrefix]
  cases Condition.ofPrefix lead maxMessageLength sub.condition with
  | error why => rfl
  | ok c => rfl

/-- **A node sees of its children only their conditions.** Over other children with the same
conditions its builder derives the same condition, or fails for the same reason. -/
theorem map_condition_rebuild {gs hs : List Fulfillment}
    (same : gs.map condition = hs.map condition) (f : Fulfillment) :
    (f.rebuild gs).map condition = (f.rebuild hs).map condition := by
  cases f with
  | prefixed lead maxMessageLength sub c =>
    cases gs with
    | nil => rw [List.map_eq_nil_iff.mp same.symm]
    | cons g gs =>
      cases hs with
      | nil => exact nomatch same
      | cons h hs =>
        obtain ⟨first, rest⟩ := List.cons.inj same
        cases gs with
        | nil =>
          obtain rfl := List.map_eq_nil_iff.mp rest.symm
          rw [rebuild, rebuild, map_condition_ofPrefix, map_condition_ofPrefix, first]
        | cons g' gs =>
          -- A prefix has one child, so both sides are the node itself.
          cases hs with
          | nil => exact nomatch rest
          | cons h' hs => rfl
  | threshold subconditions subfulfillments c =>
    by_cases none : gs = []
    · subst none
      rw [List.map_eq_nil_iff.mp same.symm]
    · have none' : hs ≠ [] := by
        rintro rfl
        exact none (List.map_eq_nil_iff.mp same)
      have length : gs.length = hs.length := by simpa using congrArg List.length same
      rw [rebuild, rebuild, map_condition_ofThreshold none, map_condition_ofThreshold none', length,
        allSubconditions, allSubconditions, same]
  | _ => rfl

theorem Constructible.exists_rebuild (made : f.Constructible) {gs : List Fulfillment}
    (subs : ∀ g ∈ gs, g.Constructible) (same : gs.map condition = f.children.map condition) :
    ∃ g, f.rebuild gs = .ok g ∧ g.Constructible ∧ g.condition = f.condition := by
  have derived := map_condition_rebuild same f
  rw [made.rebuild_children.1] at derived
  obtain ⟨g, hg, condition_eq⟩ := map_eq_ok_iff.mp derived
  exact ⟨g, hg, made.of_rebuild subs hg, condition_eq⟩

/-- What is rebuilt keeps the children it was given. -/
theorem children_of_rebuild {gs : List Fulfillment} (h : f.rebuild gs = .ok g)
    (length : gs.length = f.children.length) : g.children.Perm gs := by
  cases f with
  | prefixed lead maxMessageLength sub c =>
    obtain ⟨sub', rfl⟩ := List.length_eq_one_iff.mp length
    obtain ⟨c', -, rfl⟩ := ofPrefix_eq_ok_iff.mp h
    exact .refl _
  | threshold subconditions subfulfillments c =>
    obtain ⟨-, c', -, rfl⟩ := ofThreshold_eq_ok_iff.mp h
    exact Bytes.sortBy_perm encode gs
  | _ =>
    obtain rfl := List.length_eq_zero_iff.mp length
    cases h
    exact .refl _

/-! ### Replacing below a node -/

/-- What to put in the place of the fulfillment at a place, if anything. Making it may fail. -/
def Replacement : Type :=
  List Nat → Fulfillment → Option (Except Invalid Fulfillment)

namespace Replacement

/-- What is to be replaced below the child at a position. -/
def below (change : Replacement) (i : Nat) : Replacement :=
  fun place => change (i :: place)

/-- Whatever is put in the place of a fulfillment inside `f` exists and has the same condition. -/
def KeepsConditions (change : Replacement) (f : Fulfillment) : Prop :=
  ∀ place old built, f.at? place = some old → change place old = some built →
    ∃ new, built = .ok new ∧ new.Constructible ∧ new.condition = old.condition

/-- At a place inside a fulfillment `new` is put in, and nothing is at the places on the way
there. -/
def Puts (change : Replacement) (new : Fulfillment) : List Nat → Fulfillment → Prop
  | [], f => change [] f = some (.ok new)
  | i :: place, f => change [] f = none ∧
      ∃ child, f.children[i]? = some child ∧ (change.below i).Puts new place child

theorem KeepsConditions.below {change : Replacement} {i : Nat} (h : change.KeepsConditions f)
    (child : f.children[i]? = some g) : (change.below i).KeepsConditions g :=
  fun place old built inside =>
    h (i :: place) old built (at?_cons_eq_some_iff.mpr ⟨g, child, inside⟩)

end Replacement

mutual

/-- The fulfillment with others put in the places of some that are inside it. All builders above
those places are run again. -/
def replace (change : Replacement) : Fulfillment → Except Invalid Fulfillment
  | prefixed lead maxMessageLength sub c =>
    (change [] (prefixed lead maxMessageLength sub c)).getD do
      ofPrefix lead maxMessageLength (← replace (change.below 0) sub)
  | threshold subconditions subfulfillments c =>
    (change [] (threshold subconditions subfulfillments c)).getD do
      ofThreshold subconditions (← replaceAll change 0 subfulfillments)
  | f => (change [] f).getD (.ok f)

/-- The children from a position on, with others put in the places of some that are inside them. -/
def replaceAll (change : Replacement) : Nat → List Fulfillment → Except Invalid (List Fulfillment)
  | _, [] => .ok []
  | i, f :: fs => do
    let g ← replace (change.below i) f
    let gs ← replaceAll change (i + 1) fs
    return g :: gs

end

variable {change : Replacement}

theorem replace_of_some {built : Except Invalid Fulfillment} (h : change [] f = some built) :
    f.replace change = built := by
  cases f with
  | prefixed lead maxMessageLength sub c => rw [replace, h, Option.getD_some]
  | threshold subconditions subfulfillments c => rw [replace, h, Option.getD_some]
  | _ => simp only [replace, h, Option.getD_some]

/-- A node that stays is rebuilt over what becomes of its children. -/
theorem replace_of_none (h : change [] f = none) :
    f.replace change = replaceAll change 0 f.children >>= f.rebuild := by
  cases f with
  | prefixed lead maxMessageLength sub c =>
    rw [replace, h, Option.getD_none, children, replaceAll, replaceAll]
    cases sub.replace (change.below 0) with
    | error why => rfl
    | ok g => rfl
  | threshold subconditions subfulfillments c =>
    rw [replace, h]
    rfl
  | _ =>
    simp only [replace, h]
    rfl

/-- Children are replaced one by one. -/
theorem replaceAll_cons_eq_ok_iff {i : Nat} {fs gs : List Fulfillment} :
    replaceAll change i (f :: fs) = .ok gs ↔
      ∃ g rest, f.replace (change.below i) = .ok g ∧ replaceAll change (i + 1) fs = .ok rest ∧
        g :: rest = gs := by
  rw [replaceAll, bind_eq_ok_iff]
  constructor
  · rintro ⟨g, hg, h⟩
    obtain ⟨rest, hrest, h⟩ := bind_eq_ok_iff.mp h
    cases h
    exact ⟨g, rest, hg, hrest, rfl⟩
  · rintro ⟨g, rest, hg, hrest, rfl⟩
    exact ⟨g, hg, bind_eq_ok_iff.mpr ⟨rest, hrest, rfl⟩⟩

theorem exists_replaceAll {fs : List Fulfillment} {i : Nat}
    (h : ∀ (j : Nat) (f : Fulfillment), fs[j]? = some f →
      ∃ g, f.replace (change.below (i + j)) = .ok g ∧ g.Constructible ∧
        g.condition = f.condition) :
    ∃ gs, replaceAll change i fs = .ok gs ∧ (∀ g ∈ gs, g.Constructible) ∧
      gs.map condition = fs.map condition := by
  induction fs generalizing i with
  | nil => exact ⟨[], rfl, fun _ member => absurd member List.not_mem_nil, rfl⟩
  | cons f fs ih =>
    obtain ⟨g, hg, made, condition_eq⟩ := h 0 f rfl
    obtain ⟨gs, hgs, all_made, conditions_eq⟩ := ih (i := i + 1) fun j f' hf' => by
      rw [Nat.add_assoc, Nat.add_comm 1 j]
      exact h (j + 1) f' hf'
    refine ⟨g :: gs, replaceAll_cons_eq_ok_iff.mpr ⟨g, gs, hg, hgs, rfl⟩, ?_, ?_⟩
    · exact List.forall_mem_cons.mpr ⟨made, all_made⟩
    · rw [List.map_cons, List.map_cons, condition_eq, conditions_eq]

/-- The result of a child is among the results, at its position. -/
theorem getElem?_replaceAll {fs gs : List Fulfillment} {i : Nat}
    (h : replaceAll change i fs = .ok gs) :
    gs.length = fs.length ∧ ∀ (j : Nat) (f : Fulfillment), fs[j]? = some f →
      ∃ g, gs[j]? = some g ∧ f.replace (change.below (i + j)) = .ok g := by
  induction fs generalizing i gs with
  | nil =>
    cases h
    exact ⟨rfl, fun j f hf => nomatch hf⟩
  | cons f fs ih =>
    obtain ⟨g, rest, hg, hrest, rfl⟩ := replaceAll_cons_eq_ok_iff.mp h
    obtain ⟨length, each⟩ := ih hrest
    refine ⟨congrArg Nat.succ length, fun j f' hf' => ?_⟩
    cases j with
    | zero =>
      cases hf'
      exact ⟨g, rfl, hg⟩
    | succ j =>
      obtain ⟨g', hg', replaced⟩ := each j f' hf'
      rw [Nat.add_assoc, Nat.add_comm 1 j] at replaced
      exact ⟨g', hg', replaced⟩

/-- **The condition of a tree stays** if whatever is put in has the condition of what it replaces;
and then all builders get through. -/
theorem Constructible.exists_replace (made : f.Constructible) (keeps : change.KeepsConditions f) :
    ∃ g, f.replace change = .ok g ∧ g.Constructible ∧ g.condition = f.condition := by
  -- The induction is on the tree: a child has its own share of the replacement.
  induction f using childInduction generalizing change with
  | step f ih =>
  cases here : change [] f with
  | some built =>
    rw [replace_of_some here]
    exact keeps [] f built rfl here
  | none =>
    obtain ⟨again, subs⟩ := made.rebuild_children
    obtain ⟨gs, hgs, all_made, same⟩ : ∃ gs, replaceAll change 0 f.children = .ok gs ∧
        (∀ g ∈ gs, g.Constructible) ∧ gs.map condition = f.children.map condition := by
      refine exists_replaceAll fun j child hchild => ?_
      have member := List.mem_of_getElem? hchild
      rw [Nat.zero_add]
      exact ih child member (subs child member) (keeps.below hchild)
    obtain ⟨g, hg, g_made, condition_eq⟩ := made.exists_rebuild all_made same
    refine ⟨g, ?_, g_made, condition_eq⟩
    rw [replace_of_none here, hgs]
    exact hg

/-- What is put in is inside afterwards, as deep as what it replaced was. Its place may be another
one, since thresholds above it sort their children again. -/
theorem exists_at?_of_replace {place : List Nat} {new root : Fulfillment}
    (h : f.replace change = .ok root) (puts : change.Puts new place f) :
    ∃ place', place'.length = place.length ∧ root.at? place' = some new := by
  induction place generalizing f change root with
  | nil =>
    rw [replace_of_some puts] at h
    cases h
    exact ⟨[], rfl, rfl⟩
  | cons i place ih =>
    obtain ⟨stays, child, hchild, below⟩ := puts
    rw [replace_of_none stays] at h
    obtain ⟨gs, hgs, rebuilt⟩ := bind_eq_ok_iff.mp h
    obtain ⟨length, each⟩ := getElem?_replaceAll hgs
    obtain ⟨g, hg, replaced⟩ := each i child hchild
    rw [Nat.zero_add] at replaced
    obtain ⟨place', same, inside⟩ := ih replaced below
    have kept : g ∈ root.children :=
      (children_of_rebuild rebuilt length).mem_iff.mpr (List.mem_of_getElem? hg)
    obtain ⟨j, hj⟩ := List.mem_iff_getElem?.mp kept
    exact ⟨j :: place', congrArg Nat.succ same, at?_cons_eq_some_iff.mpr ⟨g, hj, inside⟩⟩

/-! ### Replacing signatures -/

theorem Constructible.of_at? (made : f.Constructible) {place : List Nat}
    (inside : f.at? place = some g) : g.Constructible := by
  induction place generalizing f with
  | nil =>
    cases inside
    exact made
  | cons i place ih =>
    obtain ⟨child, hchild, inside⟩ := at?_cons_eq_some_iff.mp inside
    exact ih (made.rebuild_children.2 child (List.mem_of_getElem? hchild)) inside

/-- The signature that a fulfillment holds itself. -/
def signature? : Fulfillment → Option Bytes
  | rsa _ _ signature _ => some signature
  | ed25519 _ signature _ => some signature
  | _ => none

/-- What the builder of a fulfillment makes of another signature. -/
def resign : Fulfillment → Bytes → Except Invalid Fulfillment
  | rsa modulus _ _ _, signature => ofModulus modulus signature
  | ed25519 publicKey _ _, signature => ofPublicKey publicKey signature
  | f, _ => .ok f

theorem children_of_signature? {signature : Bytes} (h : f.signature? = some signature) :
    f.children = [] := by
  cases f with
  | prefixed lead maxMessageLength sub c => exact nomatch h
  | threshold subconditions subfulfillments c => exact nomatch h
  | _ => rfl

/-- No signature is part of a condition. -/
theorem Constructible.exists_resign (made : f.Constructible) {old new : Bytes}
    (signed : f.signature? = some old) (length : new.length = old.length) :
    ∃ g, f.resign new = .ok g ∧ g.signature? = some new ∧ g.Constructible ∧
      g.condition = f.condition := by
  cases made with
  | preimage made =>
    obtain ⟨c, -, rfl⟩ := ofPreimage_eq_ok_iff.mp made
    exact nomatch signed
  | prefixed _ made =>
    obtain ⟨c, -, rfl⟩ := ofPrefix_eq_ok_iff.mp made
    exact nomatch signed
  | threshold _ made =>
    obtain ⟨-, c, -, rfl⟩ := ofThreshold_eq_ok_iff.mp made
    exact nomatch signed
  | rsa made =>
    obtain ⟨fits, c, derived, rfl⟩ := ofModulus_eq_ok_iff.mp made
    cases signed
    have resigned := ofModulus_eq_ok_iff.mpr ⟨length.trans fits, c, derived, rfl⟩
    exact ⟨_, resigned, rfl, .rsa resigned, rfl⟩
  | ed25519 made =>
    obtain ⟨key, fits, c, derived, rfl⟩ := ofPublicKey_eq_ok_iff.mp made
    cases signed
    have resigned := ofPublicKey_eq_ok_iff.mpr ⟨key, length.trans fits, c, derived, rfl⟩
    exact ⟨_, resigned, rfl, .ed25519 resigned, rfl⟩

/-- Another signature for every fulfillment that holds one, chosen by its place and the signature
that is there. -/
def Replacement.ofSignatures (choose : List Nat → Bytes → Bytes) : Replacement :=
  fun place f => f.signature?.map fun signature => f.resign (choose place signature)

section Signatures

variable {choose : List Nat → Bytes → Bytes}
  (length : ∀ place signature, (choose place signature).length = signature.length)

include length

theorem Constructible.keepsConditions_ofSignatures (made : f.Constructible) :
    (Replacement.ofSignatures choose).KeepsConditions f := by
  intro place old built inside chosen
  obtain ⟨signature, signed, rfl⟩ := Option.map_eq_some_iff.mp chosen
  obtain ⟨new, resigned, -, new_made, condition_eq⟩ :=
    (made.of_at? inside).exists_resign signed (length place signature)
  exact ⟨new, resigned, new_made, condition_eq⟩

/-- Every signature is replaced, since nothing above it is. -/
theorem Constructible.exists_puts_ofSignatures (made : f.Constructible) {place : List Nat}
    {old : Fulfillment} {signature : Bytes} (inside : f.at? place = some old)
    (signed : old.signature? = some signature) :
    ∃ new, (Replacement.ofSignatures choose).Puts new place f ∧
      new.signature? = some (choose place signature) ∧ new.condition = old.condition := by
  induction place generalizing f choose with
  | nil =>
    cases inside
    obtain ⟨new, resigned, new_signed, -, condition_eq⟩ :=
      made.exists_resign signed (length [] signature)
    refine ⟨new, ?_, new_signed, condition_eq⟩
    rw [Replacement.Puts, Replacement.ofSignatures, signed, Option.map_some, resigned]
  | cons i place ih =>
    obtain ⟨child, hchild, inside⟩ := at?_cons_eq_some_iff.mp inside
    have member := List.mem_of_getElem? hchild
    have unsigned : f.signature? = none := by
      rw [Option.eq_none_iff_forall_ne_some]
      intro other h
      rw [children_of_signature? h] at member
      exact absurd member List.not_mem_nil
    obtain ⟨new, puts, new_signed, condition_eq⟩ :=
      ih (fun place => length (i :: place)) (made.rebuild_children.2 child member) inside
    refine ⟨new, ⟨?_, child, hchild, puts⟩, new_signed, condition_eq⟩
    rw [Replacement.ofSignatures, unsigned, Option.map_none]

end Signatures

/-! ### Replacing inside a tree -/

/-- **The condition of a tree depends on what is inside only through conditions.** Fulfillments
inside it, as many and as deep as one likes, are replaced by others of the same conditions: all
builders above them get through, the condition of the whole stays, and the new fulfillments are
inside. In particular all signatures may be replaced by others of the same lengths. -/
theorem condition_replace (made : f.Constructible) :
    (∀ change : Replacement, change.KeepsConditions f →
      ∃ root, f.replace change = .ok root ∧ root.Constructible ∧ root.condition = f.condition ∧
        ∀ place new, change.Puts new place f →
          ∃ place', place'.length = place.length ∧ root.at? place' = some new) ∧
    ∀ choose : List Nat → Bytes → Bytes,
      (∀ place signature, (choose place signature).length = signature.length) →
        ∃ root, f.replace (.ofSignatures choose) = .ok root ∧ root.Constructible ∧
          root.condition = f.condition ∧
          ∀ place old signature, f.at? place = some old → old.signature? = some signature →
            ∃ place' new, place'.length = place.length ∧ root.at? place' = some new ∧
              new.signature? = some (choose place signature) ∧ new.condition = old.condition := by
  constructor
  · intro change keeps
    obtain ⟨root, replaced, root_made, condition_eq⟩ := made.exists_replace keeps
    exact ⟨root, replaced, root_made, condition_eq, fun _ _ => exists_at?_of_replace replaced⟩
  · intro choose length
    obtain ⟨root, replaced, root_made, condition_eq⟩ :=
      made.exists_replace (made.keepsConditions_ofSignatures length)
    refine ⟨root, replaced, root_made, condition_eq, ?_⟩
    intro place old signature inside signed
    obtain ⟨new, puts, new_signed, same⟩ :=
      made.exists_puts_ofSignatures length inside signed
    obtain ⟨place', depth, there⟩ := exists_at?_of_replace replaced puts
    exact ⟨place', new, depth, there, new_signed, same⟩

/-- A condition of prefixes that lists RSA signatures, without cost. -/
def listingRsa : Condition :=
  ⟨.prefixSha256, List.replicate 32 0, 0, some (.ofList [.rsaSha256]), List.length_replicate,
    Nat.zero_le _, by decide⟩

/-- A signature of 64 equal octets under the key of 32 zeros. -/
def equalOctets (n : UInt8) (c : Condition) : Fulfillment :=
  ed25519 (List.replicate 32 0) (List.replicate 64 n) c

/-- A threshold can demand two of those. -/
theorem exists_threshold_equalOctets : ∃ c d : Condition,
    (∀ n, ofPublicKey (List.replicate 32 0) (List.replicate 64 n) = .ok (equalOctets n c)) ∧
      (threshold [] [equalOctets 0 c, equalOctets 1 c] d).Constructible := by
  have key : (Condition.ofPublicKey (List.replicate 32 0)).toOption.map (·.cost) =
      some 131072 := by
    decide +kernel
  obtain ⟨c, hc, cost⟩ := exists_ok_of_map_toOption key
  have signed (n : UInt8) : ofPublicKey (List.replicate 32 0) (List.replicate 64 n) =
      .ok (equalOctets n c) :=
    ofPublicKey_eq_ok_iff.mpr ⟨rfl, List.length_replicate, c, hc, rfl⟩
  have ascending : Bytes.Sorted ([equalOctets 0 c, equalOctets 1 c].map encode) :=
    Bytes.sorted_cons_cons.mpr ⟨rfl, List.pairwise_singleton _ _⟩
  obtain ⟨d, built, -⟩ : ∃ d, ofThreshold [] [equalOctets 0 c, equalOctets 1 c] =
      .ok (threshold [] [equalOctets 0 c, equalOctets 1 c] d) ∧ _ := by
    refine exists_ofThreshold_nil (List.cons_ne_nil _ _) ascending ?_
    simp only [List.map_cons, List.map_nil, equalOctets, condition, cost]
    show Cost.total [131072, 131072] + Cost.overhead * 2 ≤ maxQuantity
    decide
  refine ⟨c, d, signed, .threshold (fun g hg => ?_) built⟩
  obtain ⟨n, -, rfl⟩ := List.mem_map.mp (show g ∈ [0, 1].map (equalOctets · c) from hg)
  exact .ed25519 (signed n)

/-- Two signatures under one key, at a threshold that demands both. If another fulfillment of the
same condition is put in the place of the first, or if the first is signed anew, it comes after the
second one. -/
theorem condition_replace_reordered :
    ∃ f first second other root : Fulfillment, f.Constructible ∧ f.children = [first, second] ∧
      f.replace (fun place _ => if place = [0] then some (.ok other) else none) = .ok root ∧
      f.replace (.ofSignatures fun place signature =>
        if place = [0] then signature.map fun _ => 2 else signature) = .ok root ∧
      root.condition = f.condition ∧ root.children.map encode = [second.encode, other.encode] := by
  obtain ⟨c, d, signed, made⟩ := exists_threshold_equalOctets
  have keeps : Replacement.KeepsConditions
      (fun place _ => if place = [0] then some (.ok (equalOctets 2 c)) else none)
      (threshold [] [equalOctets 0 c, equalOctets 1 c] d) := by
    intro place old built inside chosen
    obtain ⟨rfl, chosen⟩ := Option.ite_none_right_eq_some.mp chosen
    cases chosen
    cases inside
    exact ⟨equalOctets 2 c, rfl, .ed25519 (signed 2), rfl⟩
  obtain ⟨root, replaced, -, condition_eq, -⟩ := (condition_replace made).1 _ keeps
  obtain ⟨resigned, anew, -⟩ := (condition_replace made).2 (fun place signature =>
    if place = [0] then signature.map fun _ => 2 else signature) fun place signature => by
      split
      · exact List.length_map _
      · rfl
  -- Either way the builder of the threshold is run on the third signature and the second.
  obtain ⟨gs, hgs, rebuilt⟩ := bind_eq_ok_iff.mp ((replace_of_none rfl).symm.trans anew)
  obtain ⟨g, rest, hg, hrest, rfl⟩ := replaceAll_cons_eq_ok_iff.mp hgs
  cases (signed 2).symm.trans hg
  obtain ⟨g, none, hg, hnone, rfl⟩ := replaceAll_cons_eq_ok_iff.mp hrest
  cases (signed 1).symm.trans hg
  cases hnone
  cases replaced.symm.trans rebuilt
  refine ⟨_, equalOctets 0 c, equalOctets 1 c, equalOctets 2 c, root, made, rfl, replaced, anew,
    condition_eq, ?_⟩
  obtain ⟨-, e, -, rfl⟩ := ofThreshold_eq_ok_iff.mp rebuilt
  have ascending : Bytes.Sorted ([equalOctets 1 c, equalOctets 2 c].map encode) :=
    Bytes.sorted_cons_cons.mpr ⟨rfl, List.pairwise_singleton _ _⟩
  calc (Bytes.sortBy encode [equalOctets 2 c, equalOctets 1 c]).map encode
    _ = Bytes.sortCanonical ([equalOctets 2 c, equalOctets 1 c].map encode) :=
      Bytes.map_sortBy encode _
    _ = Bytes.sortCanonical ([equalOctets 1 c, equalOctets 2 c].map encode) :=
      Bytes.sortCanonical_eq_iff.mpr (.swap ..)
    _ = [(equalOctets 1 c).encode, (equalOctets 2 c).encode] :=
      Bytes.sortCanonical_of_sorted ascending

end Fulfillment

end HashConditions
