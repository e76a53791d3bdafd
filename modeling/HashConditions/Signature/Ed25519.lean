import HashConditions.Digest.Sha2
import HashConditions.Signature.Exponent

/-!
# Ed25519 verification

The equation without cofactor: a signature `R ‖ S` of a message under the key `A` is accepted
when `S` is below the order of the base point and `[S]B - [h]A`, written out, is `R` octet for
octet, where `h` is the SHA-512 digest of `R ‖ A ‖ message`.

A key is decoded leniently in two respects: a second coordinate that is not reduced stands for
its residue, and the sign bit of a point whose first coordinate is zero is ignored. A key that
is on no account a point of the curve makes every signature invalid.

Points are in extended coordinates, for which one addition formula covers all cases.
-/

namespace HashConditions

namespace Signature

namespace Ed25519

/-! ### The field -/

/-- The prime of the field, `2 ^ 255 - 19`. -/
def prime : Nat :=
  0x7FFFFFFFFFFFFFFFFFFFFFFFFFFFFFFFFFFFFFFFFFFFFFFFFFFFFFFFFFFFFFED

/-- Residues modulo the prime of the field. -/
abbrev Residue := Fin prime

/-- The residue of a number. -/
def residue (n : Nat) : Residue :=
  ⟨n % prime, Nat.mod_lt _ (by decide)⟩

/-- Powers of a residue. -/
def power (x : Residue) (exponent : Nat) : Residue :=
  residue (powMod prime x.val exponent)

/-- The multiplicative inverse; zero is sent to zero. -/
def inverse (x : Residue) : Residue :=
  power x (prime - 2)

/-- The number that the octets spell in base 256, least significant octet first. -/
def littleEndian (bs : Bytes) : Nat :=
  Bytes.toNat bs.reverse

/-! ### The curve -/

/-- The constant `d` of the curve `-x² + y² = 1 + d x² y²`, which is `-121665 / 121666`. -/
def curveConstant : Residue :=
  residue 37095705934669439343138083508754565189542113879843219016388785533085940283555

/-- A square root of minus one. -/
def rootOfMinusOne : Residue :=
  residue 19681161376707505956807079304988542015446066515923890162744021073123829784752

/-- The order of the base point. -/
def order : Nat :=
  0x1000000000000000000000000000000014DEF9DEA2F79CD65812631A5CF5D3ED

/-- A point `(x / z, y / z)` with `t = x y / z`. -/
structure Point where
  x : Residue
  y : Residue
  z : Residue
  t : Residue

namespace Point

/-- The neutral element. -/
def zero : Point :=
  ⟨residue 0, residue 1, residue 1, residue 0⟩

/-- The point with the given affine coordinates. -/
def ofAffine (x y : Residue) : Point :=
  ⟨x, y, residue 1, x * y⟩

/-- The point that every signature uses. -/
def base : Point :=
  ofAffine
    (residue 15112221349535400772501151409588531511454012693041857206046113283949847762202)
    (residue 46316835694926478169428394003475163141307993866256225615783033603165251855960)

/-- The sum of two points. -/
def add (p q : Point) : Point :=
  let a := (p.y - p.x) * (q.y - q.x)
  let b := (p.y + p.x) * (q.y + q.x)
  let c := p.t * (curveConstant + curveConstant) * q.t
  let d := p.z * (q.z + q.z)
  let e := b - a
  let f := d - c
  let g := d + c
  let h := b + a
  ⟨e * f, g * h, f * g, e * h⟩

/-- The opposite point. -/
def neg (p : Point) : Point :=
  ⟨residue 0 - p.x, p.y, p.z, residue 0 - p.t⟩

/-- A multiple of a point. -/
def scale (n : Nat) (p : Point) : Point :=
  if n = 0 then zero
  else
    let rest := scale (n / 2) (p.add p)
    if n % 2 = 1 then rest.add p else rest
termination_by n

/-- The weight of the topmost bit of 32 octets, `2 ^ 255`. -/
def signWeight : Nat :=
  1 <<< 255

/-- The 32 octets of a point: the second coordinate, least significant octet first, with the
parity of the first coordinate in the topmost bit. -/
def encode (p : Point) : Bytes :=
  let scaleBack := inverse p.z
  let x := p.x * scaleBack
  let y := p.y * scaleBack
  (Bytes.ofNat 32 (y.val + signWeight * (x.val % 2))).reverse

/-- The first coordinate of a curve point with second coordinate `y`: a square root of
`(y² - 1) / (d y² + 1)`, of which one candidate is computed and corrected by a root of minus
one where that is needed. -/
def abscissa? (y : Residue) : Option Residue :=
  let u := y * y - residue 1
  let v := curveConstant * (y * y) + residue 1
  let v3 := v * v * v
  let candidate := u * v3 * power (u * v3 * v3 * v) ((prime - 5) / 8)
  let square := v * candidate * candidate
  if square = u then some candidate
  else if square = residue 0 - u then some (candidate * rootOfMinusOne)
  else none

/-- The point that 32 octets stand for, if the curve has one. -/
def decode? (bs : Bytes) : Option Point :=
  let n := littleEndian bs
  let y := residue (n % signWeight)
  (abscissa? y).map fun x =>
    ofAffine (if x.val % 2 = n / signWeight % 2 then x else residue 0 - x) y

end Point

/-! ### Verification -/

/-- Whether `signature` is valid for the message under the public key. -/
def verify (publicKey message signature : Bytes) : Bool :=
  let commitment := signature.take 32
  let response := littleEndian (signature.drop 32)
  if response < order then
    match Point.decode? publicKey with
    | none => false
    | some key =>
      let challenge := littleEndian (Digest.sha512 (commitment ++ (publicKey ++ message))) % order
      let point := (Point.base.scale response).add (key.neg.scale challenge)
      point.encode == commitment
  else false

end Ed25519

end Signature

end HashConditions
