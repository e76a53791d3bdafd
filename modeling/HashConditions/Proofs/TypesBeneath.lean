import HashConditions.Proofs.FulfillmentCodec
import HashConditions.Proofs.Replacing

/-!
# The types beneath a fulfillment

The condition of a compound fulfillment lists the types beneath it: those of all fulfillments inside
it, as deep as they may be, and those that the conditions say which are left open there
(`Beneath`). Its own type is not listed, even if it occurs beneath.

A node only looks at the conditions of its children, and each of them leaves out its own type. But a
condition also has a type, and the node adds that to what is listed. So a condition as a whole
mentions the type of its fulfillment and every type beneath, and nothing else
(`Constructible.mentions_iff`). That is what goes up the tree; the subtypes are it without the type
of the root.

## Main results

* `Constructible.mentions_iff_node` — one node, from the conditions of its children
* `Constructible.mentions_iff` — a whole tree
* `Constructible.mem_subtypes_iff_beneath` — the subtypes are the types beneath
-/

namespace HashConditions

namespace Condition

variable {c : Condition} {t : ConditionType}

theorem subtypes_of_simple (simple : c.type.isCompound = false) : c.subtypes = none := by
  have admissible := c.admissible
  cases subtypes : c.subtypes with
  | none => rfl
  | some listed =>
    rw [subtypes] at admissible
    have compound : c.type.isCompound = true := admissible.1
    rw [simple] at compound
    cases compound

/-- Except its own type, a condition mentions what it lists. -/
theorem mem_subtypes_iff {listed : TypeSet} (h : c.subtypes = some listed) :
    t ∈ listed ↔ t ≠ c.type ∧ c.mentions t = true := by
  have admissible := c.admissible
  rw [h] at admissible
  have other : c.type ∉ listed := admissible.2
  rw [mentions, h, Option.any_some, Bool.or_eq_true, decide_eq_true_eq, ← TypeSet.mem_iff]
  constructor
  · intro member
    refine ⟨?_, .inr member⟩
    rintro rfl
    exact other member
  · rintro ⟨ne, own | member⟩
    · exact absurd own.symm ne
    · exact member

end Condition

namespace Fulfillment

variable {f g : Fulfillment} {t : ConditionType}

/-! ### Types beneath -/

/-- The type is that of a fulfillment inside `f`, or a condition mentions it that is left open by
`f` or by a fulfillment inside. -/
def Beneath (f : Fulfillment) (t : ConditionType) : Prop :=
  (∃ place g, place ≠ [] ∧ f.at? place = some g ∧ g.type = t) ∨
    ∃ place g c, f.at? place = some g ∧ c ∈ g.leftOpen ∧ c.mentions t = true

/-- What is beneath a node is left open by it, or it is a child or beneath one. -/
theorem beneath_iff : f.Beneath t ↔
    (∃ c ∈ f.leftOpen, c.mentions t = true) ∨ ∃ g ∈ f.children, g.type = t ∨ g.Beneath t := by
  constructor
  · rintro (⟨place, g, deeper, inside, type⟩ | ⟨place, g, c, inside, left, mentioned⟩)
    · cases place with
      | nil => exact absurd rfl deeper
      | cons i place =>
        obtain ⟨child, hchild, inside⟩ := at?_cons_eq_some_iff.mp inside
        refine .inr ⟨child, List.mem_of_getElem? hchild, ?_⟩
        cases place with
        | nil =>
          cases inside
          exact .inl type
        | cons j place => exact .inr (.inl ⟨_, g, List.cons_ne_nil _ _, inside, type⟩)
    · cases place with
      | nil =>
        cases inside
        exact .inl ⟨c, left, mentioned⟩
      | cons i place =>
        obtain ⟨child, hchild, inside⟩ := at?_cons_eq_some_iff.mp inside
        exact .inr ⟨child, List.mem_of_getElem? hchild,
          .inr (.inr ⟨place, g, c, inside, left, mentioned⟩)⟩
  · rintro (⟨c, left, mentioned⟩ | ⟨child, member, here⟩)
    · exact .inr ⟨[], f, c, rfl, left, mentioned⟩
    · obtain ⟨i, hi⟩ := List.mem_iff_getElem?.mp member
      obtain type | ⟨place, g, -, inside, type⟩ | ⟨place, g, c, inside, left, mentioned⟩ := here
      · exact .inl ⟨[i], child, List.cons_ne_nil _ _, at?_cons_eq_some_iff.mpr ⟨child, hi, rfl⟩,
          type⟩
      · exact .inl ⟨i :: place, g, List.cons_ne_nil _ _,
          at?_cons_eq_some_iff.mpr ⟨child, hi, inside⟩, type⟩
      · exact .inr ⟨i :: place, g, c, at?_cons_eq_some_iff.mpr ⟨child, hi, inside⟩, left,
          mentioned⟩

/-! ### One node -/

/-- A compound node lists what the conditions of its children mention, without its own type. -/
theorem Constructible.subtypes_eq (made : f.Constructible) (compound : f.type.isCompound = true) :
    f.condition.subtypes =
      some (compoundSubtypes f.type (allSubconditions f.leftOpen f.children)) := by
  cases made with
  | preimage made =>
    obtain ⟨c, -, rfl⟩ := ofPreimage_eq_ok_iff.mp made
    cases compound
  | prefixed sub made =>
    obtain ⟨c, hc, rfl⟩ := ofPrefix_eq_ok_iff.mp made
    obtain ⟨-, -, -, -, subtypes⟩ := Condition.ofPrefix_eq_ok_iff.mp hc
    exact subtypes
  | threshold subs made =>
    obtain ⟨-, c, hc, rfl⟩ := ofThreshold_eq_ok_iff.mp made
    obtain ⟨-, -, -, -, -, -, subtypes⟩ := Condition.ofThreshold_eq_ok_iff.mp hc
    exact subtypes
  | rsa made =>
    obtain ⟨-, c, -, rfl⟩ := ofModulus_eq_ok_iff.mp made
    cases compound
  | ed25519 made =>
    obtain ⟨-, -, c, -, rfl⟩ := ofPublicKey_eq_ok_iff.mp made
    cases compound

/-- Only a compound node has anything directly inside it. -/
theorem allSubconditions_of_simple (simple : f.type.isCompound = false) :
    allSubconditions f.leftOpen f.children = [] := by
  cases f with
  | prefixed lead maxMessageLength sub c => cases simple
  | threshold subconditions subfulfillments c => cases simple
  | _ => rfl

theorem mem_compoundSubtypes {own : ConditionType} {subs : List Condition} :
    t ∈ compoundSubtypes own subs ↔ t ≠ own ∧ ∃ c ∈ subs, c.mentions t = true := by
  simp [compoundSubtypes]

/-- A condition mentions the type of its node and what the conditions of the children mention. -/
theorem Constructible.mentions_iff_node (made : f.Constructible) :
    f.condition.mentions t = true ↔
      f.type = t ∨ ∃ c ∈ allSubconditions f.leftOpen f.children, c.mentions t = true := by
  obtain ⟨type, -⟩ := made.condition_spec
  cases compound : f.type.isCompound with
  | false =>
    have none : f.condition.subtypes = none := Condition.subtypes_of_simple (type ▸ compound)
    rw [Condition.mentions, none, type, allSubconditions_of_simple compound]
    simp
  | true =>
    rw [Condition.mentions, made.subtypes_eq compound, type, Option.any_some, Bool.or_eq_true,
      decide_eq_true_eq, ← TypeSet.mem_iff, mem_compoundSubtypes]
    -- The type that the set leaves out is the one that the condition mentions as its own.
    by_cases own : f.type = t
    · simp only [own, true_or]
    · simp only [own, ne_eq, Ne.symm own, not_false_eq_true, true_and, false_or]

/-! ### Whole trees -/

theorem exists_mem_allSubconditions {left : List Condition} {fulfilled : List Fulfillment}
    {P : Condition → Prop} : (∃ c ∈ allSubconditions left fulfilled, P c) ↔
      (∃ c ∈ left, P c) ∨ ∃ g ∈ fulfilled, P g.condition := by
  constructor
  · rintro ⟨c, member, holds⟩
    obtain member | member := List.mem_append.mp member
    · exact .inl ⟨c, member, holds⟩
    · obtain ⟨g, inside, rfl⟩ := List.mem_map.mp member
      exact .inr ⟨g, inside, holds⟩
  · rintro (⟨c, member, holds⟩ | ⟨g, member, holds⟩)
    · exact ⟨c, List.mem_append_left _ member, holds⟩
    · exact ⟨g.condition, List.mem_append_right _ (List.mem_map_of_mem member), holds⟩

/-- **A condition mentions what is there.** These are the type of the fulfillment and the types
beneath it. -/
theorem Constructible.mentions_iff (made : f.Constructible) :
    f.condition.mentions t = true ↔ f.type = t ∨ f.Beneath t := by
  -- The induction is on the tree. A child is constructible as well, and mentions its own type.
  induction f using childInduction with
  | step f ih =>
  have subs := made.rebuild_children.2
  have children : (∃ g ∈ f.children, g.condition.mentions t = true) ↔
      ∃ g ∈ f.children, g.type = t ∨ g.Beneath t := by
    constructor
    · rintro ⟨g, member, mentioned⟩
      exact ⟨g, member, (ih g member (subs g member)).mp mentioned⟩
    · rintro ⟨g, member, here⟩
      exact ⟨g, member, (ih g member (subs g member)).mpr here⟩
  rw [made.mentions_iff_node, exists_mem_allSubconditions, children, ← beneath_iff]

/-- What is beneath a fulfillment inside is beneath the whole, and so is its type. -/
theorem beneath_of_at? {place : List Nat} (inside : f.at? place = some g) (deeper : place ≠ [])
    (here : g.type = t ∨ g.Beneath t) : f.Beneath t := by
  induction place generalizing f with
  | nil => exact absurd rfl deeper
  | cons i place ih =>
    obtain ⟨child, hchild, inside⟩ := at?_cons_eq_some_iff.mp inside
    refine beneath_iff.mpr (.inr ⟨child, List.mem_of_getElem? hchild, ?_⟩)
    by_cases last : place = []
    · subst last
      cases inside
      exact here
    · exact .inr (ih inside last)

/-- **The subtypes are the types beneath.** The condition of a compound fulfillment lists the types
of all fulfillments inside it and those that conditions left open there mention, except its own
type. And although the conditions inside leave out types as well, none of them mentions one that
the condition of the whole does not. -/
theorem Constructible.mem_subtypes_iff_beneath (made : f.Constructible)
    (compound : f.type.isCompound = true) :
    (∃ listed, f.condition.subtypes = some listed ∧
        ∀ t, t ∈ listed ↔ t ≠ f.type ∧ f.Beneath t) ∧
      ∀ place g t, f.at? place = some g → g.condition.mentions t = true →
        f.condition.mentions t = true := by
  refine ⟨⟨_, made.subtypes_eq compound, fun t => ?_⟩, ?_⟩
  · rw [Condition.mem_subtypes_iff (made.subtypes_eq compound), made.condition_spec.1,
      made.mentions_iff]
    constructor
    · rintro ⟨other, own | beneath⟩
      · exact absurd own.symm other
      · exact ⟨other, beneath⟩
    · rintro ⟨other, beneath⟩
      exact ⟨other, .inr beneath⟩
  · intro place g t inside mentioned
    have here := (made.of_at? inside).mentions_iff.mp mentioned
    refine made.mentions_iff.mpr ?_
    by_cases root : place = []
    · subst root
      cases inside
      exact here
    · exact .inr (beneath_of_at? inside root here)

/-- A threshold over a prefix over a preimage, which leaves another condition open. The prefix does
not list its own type, but the threshold does. It also lists what the other condition lists. -/
theorem mem_subtypes_iff_beneath_threshold :
    ∃ (root sub : Fulfillment) (listed : TypeSet), root.Constructible ∧
      root.type = .thresholdSha256 ∧ root.leftOpen = [listingRsa] ∧ root.children = [sub] ∧
      sub.condition.subtypes = some (.ofList [.preimageSha256]) ∧
      root.condition.subtypes = some listed ∧
      (∀ t, t ∈ listed ↔ t ≠ root.type ∧ root.Beneath t) ∧
      .prefixSha256 ∈ listed ∧ .rsaSha256 ∈ listed := by
  have reads : (decode prefixedSample).toOption.map
      (fun f => (f.condition.type, f.condition.cost, f.condition.subtypes)) =
        some (.prefixSha256, 1024, some (.ofList [.preimageSha256])) := by
    decide +kernel
  obtain ⟨sub, hsub, parts⟩ := exists_ok_of_map_toOption reads
  obtain ⟨type, cost, subtypes⟩ : _ ∧ _ ∧ _ := by simpa using parts
  obtain ⟨made, -⟩ := decode_eq_ok_iff.mp hsub
  obtain ⟨c, hc⟩ : ∃ c, Condition.ofThreshold (1 : Nat) [listingRsa, sub.condition] = .ok c := by
    refine Condition.exists_ofThreshold (Nat.succ_pos 0) (Nat.le_succ 1) ?_
    simp only [List.map_cons, List.map_nil, cost]
    show Cost.total [0, 1024] + Cost.overhead * 2 ≤ maxQuantity
    decide
  have built : ofThreshold [listingRsa] [sub] = .ok (threshold [listingRsa] [sub] c) := by
    rw [ofThreshold_eq_ok_iff, Bytes.sortBy, Bytes.sortBy, List.mergeSort_singleton,
      List.mergeSort_singleton]
    exact ⟨List.cons_ne_nil _ _, c, hc, rfl⟩
  have root_made : (threshold [listingRsa] [sub] c).Constructible := by
    refine .threshold ?_ built
    intro g member
    exact List.mem_singleton.mp member ▸ made
  obtain ⟨⟨listed, listed_eq, iff⟩, -⟩ := root_made.mem_subtypes_iff_beneath rfl
  have fulfilled : (threshold [listingRsa] [sub] c).Beneath .prefixSha256 :=
    beneath_iff.mpr (.inr ⟨sub, List.mem_singleton_self _, .inl (made.condition_spec.1 ▸ type)⟩)
  have left : (threshold [listingRsa] [sub] c).Beneath .rsaSha256 :=
    beneath_iff.mpr (.inl ⟨listingRsa, List.mem_singleton_self _, by decide⟩)
  have other : ConditionType.prefixSha256 ≠ .thresholdSha256 := by decide
  have other' : ConditionType.rsaSha256 ≠ .thresholdSha256 := by decide
  exact ⟨_, sub, listed, root_made, rfl, rfl, rfl, subtypes, listed_eq, iff,
    (iff _).mpr ⟨other, fulfilled⟩, (iff _).mpr ⟨other', left⟩⟩

end Fulfillment

end HashConditions
