import HashConditions.Condition.Derive
import HashConditions.Offered.Convert
import HashConditions.TypeSet.Offer

/-!
# Conditions from offered values

Type, fingerprint, cost and subtypes are looked at in this order, and of each first the kind and
then the value. What the builders check is left to them, but where they look at a value before
another one is converted, so do the functions here: a limit or a threshold comes before the rest,
and the length of a public key before its octets.

A count stands for octets, but it has no length and makes no condition.
-/

namespace HashConditions

namespace Condition

/-- The type whose code is offered. -/
def offeredType (code : Offered) : Except Failure ConditionType := do
  match ConditionType.offered? code with
  | some type => return type
  | none => throw (.invalid (.unknownTypeCode (← code.quoted)))

/-- The fingerprint that is offered, in an octet string or a buffer. -/
def offeredFingerprint : Offered → Except Invalid Bytes
  | .octets .string bs | .octets .buffer bs =>
    if bs.length = fingerprintLength then .ok bs else .error (.fingerprintLength bs.length)
  | _ => .error .fingerprintKind

/-- A subtype whose code is offered. -/
def offeredSubtype (code : Offered) : Except Invalid ConditionType :=
  match ConditionType.offered? code with
  | some type => .ok type
  | none => .error .unknownSubtype

/-- The subtypes that are offered for a condition of the given type. Those of a simple one are not
looked at. -/
def offeredSubtypes (type : ConditionType) (subtypes : Offered) :
    Except Failure (Option TypeSet) := do
  match subtypes with
  | .nothing => return none
  | _ =>
    if type.isCompound then
      return some (.ofList (← (← subtypes.toItems).mapM fun code => offeredSubtype code))
    else throw (.invalid (.subtypesForbidden type))

/-- The condition with the parts that are offered. -/
def offer (type fingerprint cost subtypes : Offered) : Except Failure Condition := do
  let type ← offeredType type
  let fingerprint ← offeredFingerprint fingerprint
  let cost ← cost.toQuantity .cost
  let subtypes ← offeredSubtypes type subtypes
  make type fingerprint cost subtypes

/-- The condition that the offered preimage fulfills. -/
def offerPreimage (preimage : Offered) : Except Failure Condition := do
  let bs ← preimage.toOctets
  let _ ← preimage.toSize
  ofPreimage bs

/-- The condition of an offered prefix over an offered condition. -/
def offerPrefix (lead maxMessageLength sub : Offered) : Except Failure Condition := do
  let limit ← maxMessageLength.toQuantity .maxMessageLength
  let bs ← lead.toOctets
  let sub ← sub.toCondition
  let _ ← lead.toSize
  ofPrefix bs limit sub

/-- The condition of an offered threshold over offered conditions. -/
def offerThreshold (threshold subs : Offered) : Except Failure Condition := do
  let subs ← subs.toItems
  let demanded ← threshold.toQuantity .threshold
  if demanded = 0 then throw (.invalid .thresholdZero)
  ofThreshold demanded (← subs.mapM Offered.toCondition)

/-- The modulus that is offered, if it is an integer of a length that is allowed. -/
def offeredModulus : Offered → Except Invalid Int
  | .integer n => (checkModulus n).map fun _ => n
  | _ => .error (.notInteger .modulus)

/-- The condition of the RSA key that is offered. -/
def offerModulus (modulus : Offered) : Except Failure Condition := do
  ofModulus? (← offeredModulus modulus)

/-- The condition of the Ed25519 key that is offered. -/
def offerPublicKey (publicKey : Offered) : Except Failure Condition := do
  let size ← publicKey.toSize
  if size ≠ 32 then throw (.invalid (.conditionKeyLength size))
  ofPublicKey (← publicKey.toOctets)

/-- The condition whose URI is offered. -/
def offerUri : Offered → Except Failure Condition
  | .text s => ofUri s
  | _ => .error (.uri .notText)

/-! ### Proper parts -/

/-- The codes of types, offered as integers, are those types. -/
theorem mapM_offeredSubtype (types : List ConditionType) :
    (types.map fun t => Offered.integer t.code).mapM
      (fun code => (offeredSubtype code : Except Failure ConditionType)) = .ok types := by
  induction types with
  | nil => rfl
  | cons t ts ih =>
    have first : offeredSubtype (.integer t.code) = .ok t := by simp [offeredSubtype]
    simp only [List.map_cons, List.mapM_cons, ih, first]
    rfl

/-- A set of types is taken as it is for a compound condition, and refused for a simple one. -/
theorem offeredSubtypes_types (type : ConditionType) (s : TypeSet) :
    offeredSubtypes type (.types s) =
      if type.isCompound then .ok (some s) else .error (.invalid (.subtypesForbidden type)) := by
  have items : Offered.toItems (.types s) = .ok (s.toList.map fun t => .integer t.code) := rfl
  by_cases h : type.isCompound
  · simp only [offeredSubtypes, h, items, mapM_offeredSubtype, bind, Except.bind, if_true,
      TypeSet.ofList_toList]
    rfl
  · simp only [offeredSubtypes, h]
    rfl

/-- A cost that is no count is the fault that is found, whatever the subtypes are. -/
theorem make_of_negative {type : ConditionType} {fingerprint : Bytes} {cost : Int}
    {subtypes : Option TypeSet} {why : Invalid} (hf : fingerprint.length = fingerprintLength)
    (hc : Quantity.cost.check cost = .error why) :
    make type fingerprint cost subtypes = .error why := by
  unfold make
  rw [dif_pos hf]
  split <;> simp_all

/-- A simple condition with subtypes is refused for them if the rest is right. -/
theorem make_forbidden {type : ConditionType} {fingerprint : Bytes} {cost : Int}
    {s : TypeSet} {n : Nat} (hf : fingerprint.length = fingerprintLength)
    (hc : Quantity.cost.check cost = .ok n) (ht : type.isCompound = false) :
    make type fingerprint cost (some s) = .error (.subtypesForbidden type) := by
  have no : ¬ Admissible type (some s) := by simp [Admissible, ht]
  unfold make
  rw [dif_pos hf]
  split
  · simp_all
  · rw [dif_neg no, subtypesFault, ht]
    rfl

/-- Offering the parts of a condition in their proper kinds is making it of them. -/
theorem offer_proper (type : ConditionType) (fingerprint : Bytes) (cost : Int)
    (subtypes : Option TypeSet) :
    offer (.integer type.code) (.octets .string fingerprint) (.integer cost)
        ((subtypes.map .types).getD .nothing) =
      (make type fingerprint cost subtypes).mapError .invalid := by
  have known : offeredType (.integer type.code) = .ok type := by simp [offeredType]; rfl
  unfold offer
  simp only [known, offeredFingerprint, Offered.toQuantity, bind, Except.bind]
  by_cases hf : fingerprint.length = fingerprintLength
  · simp only [hf, if_true]
    cases hc : Quantity.cost.check cost with
    | error why =>
      rw [make_of_negative hf hc]
      rfl
    | ok n =>
      obtain ⟨rfl, -⟩ := Quantity.check_eq_ok_iff.1 hc
      cases subtypes with
      | none => rfl
      | some s =>
        cases ht : type.isCompound with
        | true =>
          simp only [Option.map_some, Option.getD_some, offeredSubtypes_types, ht, if_true]
          rfl
        | false =>
          rw [make_forbidden hf hc ht]
          simp only [Option.map_some, Option.getD_some, offeredSubtypes_types, ht]
          rfl
  · unfold make
    rw [dif_neg hf, if_neg hf]
    rfl

end Condition

/-- The types beneath a compound condition of the type that is offered, over offered conditions. -/
def offerCompoundSubtypes (own subs : Offered) : Except Failure TypeSet := do
  let own ← ConditionType.offer own
  return compoundSubtypes own (← (← subs.toItems).mapM Offered.toCondition)

end HashConditions
