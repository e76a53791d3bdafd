import HashConditions.Bytes.Basic
import HashConditions.Failure.UriFault
import HashConditions.Uri.Authority

/-!
# Octets in the URL alphabet of base 64

Three octets become four characters of six bits each. A last group of one or two octets becomes
two or three characters, and nothing is written in place of the missing ones.

Reading goes through a reader that tolerates nearly everything. `octets?` takes a text with
padding, skips whatever stands for nothing, stops at padding that completes a group, and drops the
bits that are left over then. `decode` supplies the padding and makes reading exact: first the
text has to consist of characters of the alphabet, and in the end it has to be what writing the
octets gives.
-/

namespace HashConditions

namespace Base64Url

/-- The character for a number below 64. -/
def letter (n : Nat) : Char :=
  if n < 26 then Char.ofNat (65 + n)
  else if n < 52 then Char.ofNat (97 + (n - 26))
  else if n < 62 then Char.ofNat (48 + (n - 52))
  else if n = 62 then '-'
  else '_'

/-- The number below 64 that a character stands for. -/
def value? (c : Char) : Option Nat :=
  if 'A' ≤ c ∧ c ≤ 'Z' then some (c.toNat - 65)
  else if 'a' ≤ c ∧ c ≤ 'z' then some (c.toNat - 97 + 26)
  else if '0' ≤ c ∧ c ≤ '9' then some (c.toNat - 48 + 52)
  else if c = '-' then some 62
  else if c = '_' then some 63
  else none

/-! ### Writing -/

/-- The six-bit numbers of an octet string. -/
def sextets : Bytes → List Nat
  | a :: b :: c :: rest =>
    a.toNat / 4 :: (a.toNat % 4 * 16 + b.toNat / 16) :: (b.toNat % 16 * 4 + c.toNat / 64) ::
      c.toNat % 64 :: sextets rest
  | [a, b] => [a.toNat / 4, a.toNat % 4 * 16 + b.toNat / 16, b.toNat % 16 * 4]
  | [a] => [a.toNat / 4, a.toNat % 4 * 16]
  | [] => []

/-- The text of an octet string. -/
def encode (bs : Bytes) : List Char :=
  (sextets bs).map letter

/-! ### Tolerant reading -/

/-- The number that a character stands for here or in the alphabet that has a plus sign and a slash
instead of the hyphen and the underscore. -/
def anyValue? (c : Char) : Option Nat :=
  if c = '+' then some 62
  else if c = '/' then some 63
  else value? c

/-- What has been read of a group of four characters: how many, and the bits of the last one that
no octet holds yet. Behind two, a padding character may have been read. -/
inductive Group
  | empty
  | one (bits : Nat)
  | two (bits : Nat) (padded : Bool)
  | three (bits : Nat)

namespace Group

/-- The octet that the next number completes, if it does, and the group behind it. -/
def add : Group → Nat → Bytes × Group
  | empty, n => ([], one n)
  | one bits, n => ([UInt8.ofNat (bits * 4 + n / 16)], two (n % 16) false)
  | two bits _, n => ([UInt8.ofNat (bits * 16 + n / 4)], three (n % 4))
  | three bits, n => ([UInt8.ofNat (bits * 64 + n)], empty)

/-- The group behind a padding character, unless that completes it. In front of the third place
padding is skipped. -/
def pad? : Group → Option Group
  | empty => some empty
  | one bits => some (one bits)
  | two bits false => some (two bits true)
  | two _ true => none
  | three _ => none

/-- No octets, where a text may end. -/
def finish? : Group → Option Bytes
  | empty => some []
  | one _ => none
  | two _ _ => none
  | three _ => none

/-- The octets of what follows within a text, unless it ends within a group. Behind padding that
completes a group nothing is read. -/
def read? : Group → List Char → Option Bytes
  | g, [] => g.finish?
  | g, c :: text =>
    if c = '=' then
      match g.pad? with
      | none => some []
      | some g => g.read? text
    else
      match anyValue? c with
      | none => g.read? text
      | some n => ((g.add n).2.read? text).map ((g.add n).1 ++ ·)

end Group

/-- The octets of a text with padding, which must be ASCII. -/
def octets? (text : List Char) : Option Bytes :=
  if text.all (·.toNat < 128) then Group.empty.read? text else none

/-- As many padding characters as complete the last group of four. -/
def padding (text : List Char) : List Char :=
  List.replicate ((4 - text.length % 4) % 4) '='

/-! ### Exact reading -/

/-- Whether a character belongs to the alphabet. -/
def isLetter (c : Char) : Bool :=
  c.isAlphanum || c == '-' || c == '_'

/-- Whether a text is one or more characters of the alphabet. A line feed at its end is
overlooked. -/
def isWord (text : List Char) : Bool :=
  let letters := Authority.dropFinalNewline text
  !letters.isEmpty && letters.all isLetter

/-- The octet string of a text. -/
def decode (text : List Char) : Except UriFault Bytes :=
  if !isWord text then .error .fingerprintAlphabet
  else
    match octets? (text ++ padding text) with
    | none => .error .fingerprintGroups
    | some bs => if encode bs = text then .ok bs else .error .fingerprintBits

end Base64Url

end HashConditions
