import HashConditions.Digest.Sha2
import HashConditions.Signature.Exponent

/-!
# RSA signatures with the probabilistic padding PSS

The hash is SHA-256, the mask is MGF1 over SHA-256, and the salt has exactly 32 octets. A
signature is a number below the modulus, and its power by the public exponent is read as an
encoded message of one bit less than the modulus:

    masked block ‖ digest H ‖ 0xbc

Unmasked with the stream that `H` generates, the block is zero octets, a one and the salt, and
`H` is the digest of eight zero octets, the digest of the message and that salt.

A modulus whose bit length is one more than a multiple of eight has an encoded message that is
one octet shorter than the modulus, and the power must fit it. No signature is valid under an
even modulus.
-/

namespace HashConditions

namespace Signature

namespace RsaPss

/-- The number of octets of a digest, and of the salt. -/
def digestLength : Nat :=
  32

/-- The mask generator: digests of the seed followed by a counter of four octets. -/
def mask (seed : Bytes) (length : Nat) : Bytes :=
  let blocks := (length + digestLength - 1) / digestLength
  ((List.range blocks).flatMap fun i => Digest.sha256 (seed ++ Bytes.ofNat 4 i)).take length

/-- Whether `encoded` is a padded message of `bits` bits for the message. -/
def matchesPadding (message : Bytes) (bits : Nat) (encoded : Bytes) : Bool :=
  let blockLength := encoded.length - digestLength - 1
  let masked := encoded.take blockLength
  let digest := (encoded.drop blockLength).take digestLength
  let unused := 8 * encoded.length - bits
  let kept := 1 <<< (8 * blockLength - unused)
  let block := Bytes.ofNat blockLength
    ((Bytes.toNat masked ^^^ Bytes.toNat (mask digest blockLength)) % kept)
  let zeros := blockLength - digestLength - 1
  let salt := block.drop (zeros + 1)
  decide (2 * digestLength + 2 ≤ encoded.length) &&
    encoded.getLast? == some 0xbc &&
    decide (Bytes.toNat masked < kept) &&
    block.take (zeros + 1) == List.replicate zeros 0 ++ [1] &&
    digest == Digest.sha256 (List.replicate 8 0 ++ (Digest.sha256 message ++ salt))

/-- Whether `signature` is valid for the message under the public key. -/
def verify (modulus exponent : Nat) (message signature : Bytes) : Bool :=
  let bits := bitLength modulus - 1
  let encodedLength := (bits + 7) / 8
  let power := powMod modulus (Bytes.toNat signature) exponent
  modulus % 2 == 1 &&
    signature.length == octetLength modulus &&
    decide (Bytes.toNat signature < modulus) &&
    decide (octetLength power ≤ encodedLength) &&
    matchesPadding message bits (Bytes.ofNat encodedLength power)

end RsaPss

end Signature

end HashConditions
