import HashConditions.Proofs.Requirements
import HashConditions.Proofs.UriCodec
import HashConditions.Proofs.WindowReading
import HashConditions.Verification.Offer

/-!
# Verification does not depend on the form of its operands

A fulfillment may be presented itself or in its encoding, and a condition itself, in its encoding or
as a URI. Each form is read back as the value it stands for, with the children of a threshold in the
order in which they are kept, and reading leaves nothing in the trace. So verification in one call
is verification of the values: the same computation, with the same answer, the same questions to the
provider in the same order, and the same notes.

That is said of operands whose form is known, and of operands that are offered as values of any
kind, where the form has to be found out first.

## Main results

* `PresentedFulfillment.get_of_mem_forms`, `PresentedCondition.get_of_mem_forms` — what is presented
  is what is verified
* `validate_forms` — verification in one call is verification of the values
-/

namespace HashConditions

namespace Verification

variable {f : Fulfillment}

/-- The forms in which a fulfillment may be presented. -/
def PresentedFulfillment.forms (f : Fulfillment) : List PresentedFulfillment :=
  [.value f, .encoded f.encode]

/-- The forms in which a condition may be presented. -/
def PresentedCondition.forms (c : Condition) : List PresentedCondition :=
  [.value c, .encoded c.encode, .uri c.toUri]

theorem decodeFulfillment_encode (made : f.Constructible) (short : f.encode.length < 2 ^ 32) :
    decodeFulfillment f.encode = pure f := by
  have body_short : f.body.length < 256 ^ 4 := by
    have shorter := f.length_body_lt
    omega
  rw [decodeFulfillment, Fulfillment.decode_eq_ok_iff.mpr ⟨made, body_short, rfl⟩]

theorem decodeCondition_encode (c : Condition) : decodeCondition c.encode = pure c := by
  rw [decodeCondition, Condition.decode_eq_ok_iff.mpr rfl]

/-- Every form of a fulfillment is taken as that fulfillment. -/
theorem PresentedFulfillment.get_of_mem_forms {F : PresentedFulfillment} (made : f.Constructible)
    (short : f.encode.length < 2 ^ 32) (hF : F ∈ forms f) : F.get = pure f := by
  simp only [forms, List.mem_cons, List.not_mem_nil, or_false] at hF
  rcases hF with rfl | rfl
  · rfl
  · exact decodeFulfillment_encode made short

/-- Every form of a condition is taken as that condition. -/
theorem PresentedCondition.get_of_mem_forms {c : Condition} {C : PresentedCondition}
    (hC : C ∈ forms c) : C.get = pure c := by
  simp only [forms, List.mem_cons, List.not_mem_nil, or_false] at hC
  rcases hC with rfl | rfl | rfl
  · rfl
  · exact decodeCondition_encode c
  · rw [get, Condition.ofUri_toUri, ofExcept]

/-! ### Offered operands -/

/-- A presented fulfillment as a value of any kind. -/
def PresentedFulfillment.offered : PresentedFulfillment → Offered
  | value f => .fulfillment f
  | encoded bs => .octets .string bs

/-- A presented condition as a value of any kind. -/
def PresentedCondition.offered : PresentedCondition → Offered
  | value c => .condition c
  | encoded bs => .octets .string bs
  | uri text => .text text

theorem readFulfillment_offered (F : PresentedFulfillment) :
    readFulfillment F.offered = F.get >>= fun f => pure (.fulfillment f) := by
  cases F with
  | value f => rfl
  | encoded bs => rfl

theorem readCondition_offered (C : PresentedCondition) :
    readCondition C.offered = C.get >>= fun c => pure (.condition c) := by
  cases C with
  | value c => rfl
  | encoded bs => rfl
  | uri text => rfl

/-- What is presented is verified in the same way if its form has to be found out. -/
theorem validateOffered_offered (p : Provider) (F : PresentedFulfillment) (C : PresentedCondition)
    (holder : Holder) (message : Bytes) :
    validateOffered p F.offered C.offered (.octets holder message) = validate p F C message := by
  simp only [validateOffered, validate, readFulfillment_offered, readCondition_offered, bind_assoc,
    pure_bind, verifyOffered_proper]

/-! ### Verification in one call -/

/-- **Verification in one call is verification of the values.** Whatever form the fulfillment and
the condition are presented in, the same is answered and the same is asked of the provider, also by
a provider that remembers or fails. -/
theorem validate_forms (made : f.Constructible) (short : f.encode.length < 2 ^ 32) (c : Condition)
    (p : Provider) (message : Bytes) {F : PresentedFulfillment} {C : PresentedCondition}
    (hF : F ∈ PresentedFulfillment.forms f) (hC : C ∈ PresentedCondition.forms c) :
    validate p F C message = verify p f c message ∧
      ∀ holder, validateOffered p F.offered C.offered (.octets holder message) =
        verify p f c message := by
  have same : validate p F C message = verify p f c message := by
    rw [validate, PresentedFulfillment.get_of_mem_forms made short hF,
      PresentedCondition.get_of_mem_forms hC, pure_bind, pure_bind]
  refine ⟨same, fun holder => ?_⟩
  rw [validateOffered_offered, same]

/-- A signature behind a prefix, in its encoding and against the URI of its condition: the provider
is asked about the message with the prefix in front of it, and rejects. -/
theorem validate_forms_encoded :
    ∃ f : Fulfillment, f.Constructible ∧ f.encode.length < 2 ^ 32 ∧
      ∃ notes, runFrom .empty (validate (.scripted [.ok false]) (.encoded f.encode)
          (.uri f.condition.toUri) [3]) =
        (.ok false, ⟨[.ed25519 (List.replicate 32 0) [1, 3] (List.replicate 64 0)], notes⟩) := by
  have built : ((Fulfillment.ofPublicKey (List.replicate 32 0) (List.replicate 64 0) >>=
      Fulfillment.ofPrefix [1] 9).toOption.map fun f => f.encode.length) = some 112 := by
    decide +kernel
  obtain ⟨f, hf, length⟩ := exists_ok_of_map_toOption built
  obtain ⟨leaf, hleaf, hprefixed⟩ := bind_eq_ok_iff.mp hf
  have made : f.Constructible := .prefixed (.ed25519 hleaf) hprefixed
  have short : f.encode.length < 2 ^ 32 := by
    rw [length]
    decide
  refine ⟨f, made, short, ?_⟩
  have encoded : .encoded f.encode ∈ PresentedFulfillment.forms f := by
    simp [PresentedFulfillment.forms]
  have uri : .uri f.condition.toUri ∈ PresentedCondition.forms f.condition := by
    simp [PresentedCondition.forms]
  rw [(validate_forms made short f.condition _ [3] encoded uri).1, verify_self made]
  obtain ⟨-, -, c, -, rfl⟩ := Fulfillment.ofPublicKey_eq_ok_iff.mp hleaf
  obtain ⟨c', -, rfl⟩ := Fulfillment.ofPrefix_eq_ok_iff.mp hprefixed
  exact ⟨_, rfl⟩

end Verification

end HashConditions
