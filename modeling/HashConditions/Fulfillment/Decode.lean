import HashConditions.Der.Choice
import HashConditions.Fulfillment.Build

/-!
# Reading fulfillments

The reader of a type takes the parts of a fulfillment off the content of its element, hands them
to the builder of the type, and then requires that nothing is left. So the order of failures is:
what is wrong with a part, what the builder objects to, and last what is left over.

The readers of prefixes and thresholds read the fulfillments inside them. A fulfillment inside
another one occupies a strictly smaller region, which is why reading ends on every input.

How deep fulfillments are nested is bounded by the length of the input and by nothing else. A limit
that an interpreter sets on recursion is not part of the format, and is left out here as it is in
writing and in verification.
-/

namespace HashConditions

open Der Region

namespace Fulfillment

variable {ρ ε : Type} [Region ρ ε]

/-- The fulfillment that a builder made from the parts read before the cursor, at the end of the
content of its element. -/
def conclude (found : Choice ρ) (c : ρ) (built : Except Invalid Fulfillment) :
    Except ε Fulfillment :=
  match built with
  | .error why => .error (fail found.start (.invalid why) found.type.name)
  | .ok f =>
    match finish c found.type.name with
    | .error e => .error e
    | .ok () => .ok f

/-- Reads a preimage. -/
def readPreimage (found : Choice ρ) : Except ε Fulfillment := do
  let (bs, c) ← (readOctets found.inside (primitiveTag 0) "preimage").value
  conclude found c (ofPreimage bs)

/-- Reads the modulus, which has no leading zero octet, and the signature of an RSA key. -/
def readRsa (found : Choice ρ) : Except ε Fulfillment := do
  let (modulus, c) ← (readOctets found.inside (primitiveTag 0) "modulus").value
  if modulus.head?.all (· = 0) then .error (fail found.inside .paddedModulus "modulus")
  else
    let (signature, c) ← (readOctets c (primitiveTag 1) "signature").value
    conclude found c (ofModulus (Bytes.toNat modulus) signature)

/-- Reads the public key and the signature of an Ed25519 key. -/
def readEd25519 (found : Choice ρ) : Except ε Fulfillment := do
  let (publicKey, c) ← (readOctets found.inside (primitiveTag 0) "public_key").value
  let (signature, c) ← (readOctets c (primitiveTag 1) "signature").value
  conclude found c (ofPublicKey publicKey signature)

/-- What stands in front of the subfulfillment of a prefix: the prefix, the limit, the element
around the subfulfillment and the header of the subfulfillment itself. -/
structure PrefixParts (ρ : Type) where
  lead : Bytes
  maxMessageLength : Nat
  wrapper : Element ρ
  sub : Choice ρ

/-- Reads the parts in front of the subfulfillment of a prefix. -/
def readPrefixParts (c : ρ) : Except ε (PrefixParts ρ) := do
  let (lead, c) ← (readOctets c (primitiveTag 0) "prefix").value
  let (maxMessageLength, c) ← (readInteger c (primitiveTag 1) "max_message_length").value
  let wrapper ← element c (constructedTag 2) "subfulfillment"
  let sub ← choice wrapper.inside .fulfillment
  return ⟨lead, maxMessageLength, wrapper, sub⟩

theorem size_of_readPrefixParts {c : ρ} {parts : PrefixParts ρ}
    (h : readPrefixParts c = .ok parts) : size parts.sub.inside < size c := by
  rw [readPrefixParts] at h
  cases h1 : (readOctets c (primitiveTag 0) "prefix").value with
  | error e => simp [h1, bind, Except.bind] at h
  | ok r1 =>
    obtain ⟨lead, c1⟩ := r1
    simp only [h1, bind, Except.bind] at h
    cases h2 : (readInteger c1 (primitiveTag 1) "max_message_length").value with
    | error e => simp [h2] at h
    | ok r2 =>
      obtain ⟨limit, c2⟩ := r2
      simp only [h2] at h
      cases h3 : element c2 (constructedTag 2) "subfulfillment" with
      | error e => simp [h3] at h
      | ok wrapper =>
        simp only [h3] at h
        cases h4 : choice wrapper.inside .fulfillment with
        | error e => simp [h4] at h
        | ok sub =>
          simp only [h4, pure, Except.pure, Except.ok.injEq] at h
          subst h
          have s1 := size_of_reading h1
          have s2 := size_of_reading h2
          have s3 := (size_of_element h3).1
          have s4 := (size_of_choice h4).1
          simp only
          omega

/-- The fulfillment whose parts the content of an element holds. -/
def ofChoice (found : Choice ρ) : Except ε Fulfillment :=
  match found.type with
  | .preimageSha256 => readPreimage found
  | .prefixSha256 =>
    match h : readPrefixParts found.inside with
    | .error e => .error e
    | .ok parts =>
      have := size_of_readPrefixParts h
      match ofChoice parts.sub with
      | .error e => .error e
      | .ok sub =>
        match finish parts.sub.after "subfulfillment" with
        | .error e => .error e
        | .ok () =>
          conclude found parts.wrapper.after (ofPrefix parts.lead parts.maxMessageLength sub)
  | .thresholdSha256 =>
    match h : element found.inside (constructedTag 0) "subfulfillments" with
    | .error e => .error e
    | .ok first =>
      have smaller := (size_of_element h).1
      match setOf .fulfillment "subfulfillments" (size found.inside)
          (fun child _ => ofChoice child) first.inside (Nat.le_of_lt smaller) [] with
      | .error e => .error e
      | .ok subfulfillments =>
        match element first.after (constructedTag 1) "subconditions" with
        | .error e => .error e
        | .ok second =>
          match setOf .condition "subconditions" (size second.inside)
              (fun child _ => Condition.ofChoice child) second.inside (Nat.le_refl _) [] with
          | .error e => .error e
          | .ok subconditions =>
            conclude found second.after (ofThreshold subconditions subfulfillments)
  | .rsaSha256 => readRsa found
  | .ed25519Sha256 => readEd25519 found
termination_by (size found.inside)

/-- Reads one fulfillment. -/
def read (c : ρ) : Der.Reading ρ ε Fulfillment :=
  reading c (choice c .fulfillment) Choice.after ofChoice

/-- The fulfillment that an octet string is the encoding of. -/
def decode (bs : Bytes) : Except Malformed Fulfillment := do
  let (fulfillment, c) ← (read (Cursor.ofBytes bs)).value
  finish c "fulfillment"
  return fulfillment

end Fulfillment

end HashConditions
