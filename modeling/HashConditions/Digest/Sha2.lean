import HashConditions.Bytes.Basic

/-!
# The SHA-2 family

SHA-256 and SHA-512 are one construction at two word sizes. A message is padded to whole blocks
of sixteen words, and each block is mixed into a state of eight words by one round per round
constant. The members differ in the word size, in the number of rounds and in the rotation
amounts of the four mixing functions, and those are the fields of `Sha2`.

The constants are shared as well: SHA-512 takes the first 64 bits of the fractional parts of
square and cube roots of primes, SHA-256 the first 32 bits of the same numbers.

The state is a structure of eight words, so the length of a digest needs no theorem about the
rounds.
-/

namespace HashConditions

namespace Digest

/-! ### Constants -/

/-- The first 64 fractional bits of the cube roots of the first eighty primes. -/
def cubeRoots : List (BitVec 64) :=
  [0x428a2f98d728ae22, 0x7137449123ef65cd, 0xb5c0fbcfec4d3b2f, 0xe9b5dba58189dbbc,
   0x3956c25bf348b538, 0x59f111f1b605d019, 0x923f82a4af194f9b, 0xab1c5ed5da6d8118,
   0xd807aa98a3030242, 0x12835b0145706fbe, 0x243185be4ee4b28c, 0x550c7dc3d5ffb4e2,
   0x72be5d74f27b896f, 0x80deb1fe3b1696b1, 0x9bdc06a725c71235, 0xc19bf174cf692694,
   0xe49b69c19ef14ad2, 0xefbe4786384f25e3, 0x0fc19dc68b8cd5b5, 0x240ca1cc77ac9c65,
   0x2de92c6f592b0275, 0x4a7484aa6ea6e483, 0x5cb0a9dcbd41fbd4, 0x76f988da831153b5,
   0x983e5152ee66dfab, 0xa831c66d2db43210, 0xb00327c898fb213f, 0xbf597fc7beef0ee4,
   0xc6e00bf33da88fc2, 0xd5a79147930aa725, 0x06ca6351e003826f, 0x142929670a0e6e70,
   0x27b70a8546d22ffc, 0x2e1b21385c26c926, 0x4d2c6dfc5ac42aed, 0x53380d139d95b3df,
   0x650a73548baf63de, 0x766a0abb3c77b2a8, 0x81c2c92e47edaee6, 0x92722c851482353b,
   0xa2bfe8a14cf10364, 0xa81a664bbc423001, 0xc24b8b70d0f89791, 0xc76c51a30654be30,
   0xd192e819d6ef5218, 0xd69906245565a910, 0xf40e35855771202a, 0x106aa07032bbd1b8,
   0x19a4c116b8d2d0c8, 0x1e376c085141ab53, 0x2748774cdf8eeb99, 0x34b0bcb5e19b48a8,
   0x391c0cb3c5c95a63, 0x4ed8aa4ae3418acb, 0x5b9cca4f7763e373, 0x682e6ff3d6b2b8a3,
   0x748f82ee5defb2fc, 0x78a5636f43172f60, 0x84c87814a1f0ab72, 0x8cc702081a6439ec,
   0x90befffa23631e28, 0xa4506cebde82bde9, 0xbef9a3f7b2c67915, 0xc67178f2e372532b,
   0xca273eceea26619c, 0xd186b8c721c0c207, 0xeada7dd6cde0eb1e, 0xf57d4f7fee6ed178,
   0x06f067aa72176fba, 0x0a637dc5a2c898a6, 0x113f9804bef90dae, 0x1b710b35131c471b,
   0x28db77f523047d84, 0x32caab7b40c72493, 0x3c9ebe0a15c9bebc, 0x431d67c49c100d4c,
   0x4cc5d4becb3e42b6, 0x597f299cfc657e2a, 0x5fcb6fab3ad6faec, 0x6c44198c4a475817]

/-- The first 64 fractional bits of the square roots of the first eight primes. -/
def squareRoots : List (BitVec 64) :=
  [0x6a09e667f3bcc908, 0xbb67ae8584caa73b, 0x3c6ef372fe94f82b, 0xa54ff53a5f1d36f1,
   0x510e527fade682d1, 0x9b05688c2b3e6c1f, 0x1f83d9abfb41bd6b, 0x5be0cd19137e2179]

/-- The leading 32 bits of a word. -/
def leadingHalf (x : BitVec 64) : BitVec 32 :=
  x.extractLsb' 32 32

/-! ### The construction -/

/-- The chaining state: eight words. -/
structure State (w : Nat) where
  a : BitVec w
  b : BitVec w
  c : BitVec w
  d : BitVec w
  e : BitVec w
  f : BitVec w
  g : BitVec w
  h : BitVec w

namespace State

variable {w : Nat}

/-- Eight words taken from the front of a list; missing ones are zero. -/
def ofList (ws : List (BitVec w)) : State w :=
  ⟨ws.getD 0 0, ws.getD 1 0, ws.getD 2 0, ws.getD 3 0,
    ws.getD 4 0, ws.getD 5 0, ws.getD 6 0, ws.getD 7 0⟩

/-- Word by word addition, which feeds the state before a block into the state after it. -/
def add (s t : State w) : State w :=
  ⟨s.a + t.a, s.b + t.b, s.c + t.c, s.d + t.d, s.e + t.e, s.f + t.f, s.g + t.g, s.h + t.h⟩

/-- The octets of the eight words, each most significant octet first. -/
def toBytes (s : State w) : Bytes :=
  [s.a, s.b, s.c, s.d, s.e, s.f, s.g, s.h].flatMap fun x => Bytes.ofNat (w / 8) x.toNat

theorem length_toBytes (s : State w) : s.toBytes.length = 8 * (w / 8) := by
  simp [toBytes]
  omega

end State

/-- A member of the family: its start, its round constants and its four mixing functions. -/
structure Sha2 (w : Nat) where
  initial : State w
  constants : List (BitVec w)
  mixA : BitVec w → BitVec w
  mixE : BitVec w → BitVec w
  expandOld : BitVec w → BitVec w
  expandNew : BitVec w → BitVec w

namespace Sha2

variable {w : Nat}

/-- The exclusive or of three rotations to the right. -/
def rotations (i j k : Nat) (x : BitVec w) : BitVec w :=
  x.rotateRight i ^^^ x.rotateRight j ^^^ x.rotateRight k

/-- The exclusive or of two rotations and a shift to the right. -/
def rotationsShift (i j k : Nat) (x : BitVec w) : BitVec w :=
  x.rotateRight i ^^^ x.rotateRight j ^^^ (x >>> k)

/-- Bit by bit, the second word where the first has ones and the third where it has zeros. -/
def choose (x y z : BitVec w) : BitVec w :=
  (x &&& y) ^^^ (~~~x &&& z)

/-- Bit by bit, the value that at least two of the words agree on. -/
def majority (x y z : BitVec w) : BitVec w :=
  (x &&& y) ^^^ (x &&& z) ^^^ (y &&& z)

/-- One round: a constant and a word of the message schedule enter the state. -/
def round (v : Sha2 w) (s : State w) (constant word : BitVec w) : State w :=
  let t := s.h + v.mixE s.e + choose s.e s.f s.g + constant + word
  let u := v.mixA s.a + majority s.a s.b s.c
  ⟨t + u, s.a, s.b, s.c, s.d + t, s.e, s.f, s.g⟩

/-- The schedule word that follows the sixteen words `word :: later`. -/
def next (v : Sha2 w) (word : BitVec w) (later : List (BitVec w)) : BitVec w :=
  v.expandNew (later.getD 13 0) + later.getD 8 0 + v.expandOld (later.getD 0 0) + word

/-- One round per constant. The second list is the window of sixteen schedule words, which each
round moves on by one word. -/
def rounds (v : Sha2 w) : List (BitVec w) → List (BitVec w) → State w → State w
  | constant :: constants, word :: later, s =>
    v.rounds constants (later ++ [v.next word later]) (v.round s constant word)
  | _, _, s => s

/-- The state after one block of sixteen words. -/
def compress (v : Sha2 w) (s : State w) (block : List (BitVec w)) : State w :=
  s.add (v.rounds v.constants block s)

/-- The first `count` words of an octet string. -/
def words : Nat → Bytes → List (BitVec w)
  | 0, _ => []
  | count + 1, bs => BitVec.ofNat w (Bytes.toNat (bs.take (w / 8))) :: words count (bs.drop (w / 8))

/-- The state after the first `count` blocks; a block has sixteen words, so `2 * w` octets. -/
def absorb (v : Sha2 w) : Nat → Bytes → State w → State w
  | 0, _, s => s
  | count + 1, bs, s => v.absorb count (bs.drop (2 * w)) (v.compress s (words 16 bs))

/-- The message, a one bit, zero bits up to a whole number of blocks, and the length of the
message in bits, which fills the last two words. -/
def pad (w : Nat) (message : Bytes) : Bytes :=
  let used := message.length + 1 + w / 4
  let zeros := (2 * w - used % (2 * w)) % (2 * w)
  message ++ 0x80 :: (List.replicate zeros 0 ++ Bytes.ofNat (w / 4) (8 * message.length))

/-- The digest of a message. -/
def digest (v : Sha2 w) (message : Bytes) : Bytes :=
  let padded := pad w message
  (v.absorb (padded.length / (2 * w)) padded v.initial).toBytes

theorem length_digest (v : Sha2 w) (message : Bytes) :
    (v.digest message).length = 8 * (w / 8) :=
  State.length_toBytes _

end Sha2

/-! ### The two members -/

/-- SHA-256: sixty-four rounds on words of 32 bits. -/
def sha2Words32 : Sha2 32 where
  initial := State.ofList (squareRoots.map leadingHalf)
  constants := (cubeRoots.take 64).map leadingHalf
  mixA := Sha2.rotations 2 13 22
  mixE := Sha2.rotations 6 11 25
  expandOld := Sha2.rotationsShift 7 18 3
  expandNew := Sha2.rotationsShift 17 19 10

/-- SHA-512: eighty rounds on words of 64 bits. -/
def sha2Words64 : Sha2 64 where
  initial := State.ofList squareRoots
  constants := cubeRoots
  mixA := Sha2.rotations 28 34 39
  mixE := Sha2.rotations 14 18 41
  expandOld := Sha2.rotationsShift 1 8 7
  expandNew := Sha2.rotationsShift 19 61 6

/-- The SHA-256 digest. -/
def sha256 (message : Bytes) : Bytes :=
  sha2Words32.digest message

/-- The SHA-512 digest. -/
def sha512 (message : Bytes) : Bytes :=
  sha2Words64.digest message

@[simp] theorem length_sha256 (message : Bytes) : (sha256 message).length = 32 :=
  Sha2.length_digest ..

@[simp] theorem length_sha512 (message : Bytes) : (sha512 message).length = 64 :=
  Sha2.length_digest ..

end Digest

end HashConditions
