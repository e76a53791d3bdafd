import HashConditions.Condition.Contents
import HashConditions.Fulfillment.Basic

/-!
# Writing fulfillments

    preimage    [0] { [0] preimage }
    prefix      [1] { [0] prefix, [1] maxMessageLength, [2] { subfulfillment } }
    threshold   [2] { [0] { subfulfillments }, [1] { subconditions } }
    rsa         [3] { [0] modulus, [1] signature }
    ed25519     [4] { [0] publicKey, [1] signature }

The conditions of the subfulfillments are not written, since they follow from them. Both sets of
a threshold are in canonical order.
-/

namespace HashConditions

open Der

namespace Fulfillment

mutual

/-- The canonical encoding of a fulfillment. -/
def encode : Fulfillment → Bytes
  | preimage bs _ => encodeElement (constructedTag 0) (encodeElement (primitiveTag 0) bs)
  | prefixed lead maxMessageLength sub _ =>
    encodeElement (constructedTag 1)
      (encodeElement (primitiveTag 0) lead ++
        (encodeElement (primitiveTag 1) (encodeInteger maxMessageLength) ++
          encodeElement (constructedTag 2) (encode sub)))
  | threshold subconditions subfulfillments _ =>
    encodeElement (constructedTag 2)
      (encodeElement (constructedTag 0) (Bytes.sortCanonical (encodeAll subfulfillments)).flatten ++
        encodeElement (constructedTag 1)
          (Bytes.sortCanonical (subconditions.map Condition.encode)).flatten)
  | rsa modulus _ signature _ =>
    encodeElement (constructedTag 3)
      (encodeElement (primitiveTag 0) (Contents.modulus modulus) ++
        encodeElement (primitiveTag 1) signature)
  | ed25519 publicKey signature _ =>
    encodeElement (constructedTag 4)
      (encodeElement (primitiveTag 0) publicKey ++ encodeElement (primitiveTag 1) signature)

/-- The encodings of the members of a list. -/
def encodeAll : List Fulfillment → List Bytes
  | [] => []
  | f :: fs => encode f :: encodeAll fs

end

@[simp] theorem encodeAll_eq_map (fs : List Fulfillment) : encodeAll fs = fs.map encode := by
  induction fs with
  | nil => rfl
  | cons f fs ih => rw [encodeAll, ih, List.map_cons]

end Fulfillment

end HashConditions
