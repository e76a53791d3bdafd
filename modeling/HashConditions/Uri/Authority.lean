import HashConditions.Text.Numeral
import HashConditions.Uri.Percent

/-!
# Authorities

Normalizing a URI takes its authority apart and puts it together again:

    [ userinfo "@" ] host [ ":" ] [ number ]

An authority that does not have this form has no parts, and so is gone afterwards; the same
happens if its host is four decimal numbers with dots one of which is above 255. An authority
whose parts are all empty is gone as well. `Authority.survives` tells whether anything is left.

A line feed at the very end is overlooked. All this is how rfc3986 2.0.0 does it, like everything
in `HashConditions.Uri.Reference`.
-/

namespace HashConditions

namespace Authority

/-- The longest start of a text that is made of the given characters and encoded octets, and
what follows it. -/
def spanEncoded (allowed : Char → Bool) : List Char → List Char × List Char
  | '%' :: high :: low :: rest =>
    if Text.isHexDigit high && Text.isHexDigit low then
      let (front, back) := spanEncoded allowed rest
      ('%' :: high :: low :: front, back)
    else ([], '%' :: high :: low :: rest)
  | c :: rest =>
    if c != '%' && allowed c then
      let (front, back) := spanEncoded allowed rest
      (c :: front, back)
    else ([], c :: rest)
  | [] => ([], [])

/-- Whether a text is one or more of the given characters and encoded octets. -/
def isEncoded (allowed : Char → Bool) (text : List Char) : Bool :=
  !text.isEmpty && (spanEncoded allowed text).2.isEmpty

/-- The characters of a registered name. -/
def isNameChar (c : Char) : Bool :=
  Percent.isUnreserved c || Percent.isSubDelimiter c

/-! ### Numeric addresses -/

/-- Whether a text is one to three decimal digits. -/
def isShortNumber (text : List Char) : Bool :=
  !text.isEmpty && text.length ≤ 3 && text.all Text.isDigit

/-- Whether a text is four short decimal numbers with dots between them. -/
def isDotted (text : List Char) : Bool :=
  let numbers := text.splitOn '.'
  numbers.length == 4 && numbers.all isShortNumber

/-- Whether a text is a dotted address with a number that does not fit an octet. -/
def isBadDotted (text : List Char) : Bool :=
  isDotted text && (text.splitOn '.').any fun number => 255 < Text.ofDecimal number

/-- Whether a text is one to four hexadecimal digits. -/
def isGroup (text : List Char) : Bool :=
  !text.isEmpty && text.length ≤ 4 && text.all Text.isHexDigit

/-- The number of 16 bit groups in a part of an address of version 6. The last piece may be a
dotted address, which counts as two groups. -/
def groups? : List (List Char) → Option Nat
  | [] => some 0
  | [last] => if isGroup last then some 1 else if isDotted last then some 2 else none
  | piece :: pieces => if isGroup piece then (groups? pieces).map (· + 1) else none

/-- The parts of a text before and after its first pair of colons. -/
def splitGap : List Char → Option (List Char × List Char)
  | ':' :: ':' :: rest => some ([], rest)
  | c :: rest => (splitGap rest).map fun (front, back) => (c :: front, back)
  | [] => none

/-- The pieces between colons; the empty text has none. -/
def pieces (text : List Char) : List (List Char) :=
  if text.isEmpty then [] else text.splitOn ':'

/-- Whether a text is an address of version 6: eight groups, or at most seven with a gap. -/
def isVersion6 (text : List Char) : Bool :=
  match splitGap text with
  | none => groups? (pieces text) == some 8
  | some (front, back) =>
    (pieces front).all isGroup &&
      (groups? (pieces back)).any fun n => (pieces front).length + n ≤ 7

/-- Whether a text is an address of version 6, with or without a zone behind a percent sign. -/
def isZoned (text : List Char) : Bool :=
  let address := text.takeWhile (· != '%')
  let zone := text.drop address.length
  isVersion6 address && (zone.isEmpty || isEncoded Percent.isUnreserved (zone.drop 1))

/-- Whether a text is an address of a later version. -/
def isFuture (text : List Char) : Bool :=
  match text with
  | 'v' :: rest =>
    let version := rest.takeWhile Text.isHexDigit
    let tail := rest.drop version.length
    !version.isEmpty && tail.head? == some '.' && !(tail.drop 1).isEmpty &&
      (tail.drop 1).all fun c => isNameChar c || c == ':'
  | _ => false

/-! ### Parts -/

/-- The host at the start of a text and what follows it, if there is one. A name may be empty. -/
def host? (text : List Char) : Option (List Char × List Char) :=
  match text with
  | '[' :: rest =>
    let literal := rest.takeWhile (· != ']')
    let tail := rest.drop literal.length
    if tail.isEmpty || !(isZoned literal || isFuture literal) then none
    else some ('[' :: (literal ++ [']']), tail.drop 1)
  | _ => some (spanEncoded isNameChar text)

/-- The number behind a host, which a colon may announce: at most five digits. -/
def number? (text : List Char) : Option (List Char) :=
  let digits := if text.head? == some ':' then text.drop 1 else text
  if digits.length ≤ 5 && digits.all Text.isDigit then some digits else none

/-- The user information in front of a host and the rest of an authority. -/
def userinfo? (text : List Char) : Option (List Char × List Char) :=
  if text.contains '@' then
    let user := text.takeWhile (· != '@')
    if isEncoded (fun c => isNameChar c || c == ':') user then
      some (user, text.drop (user.length + 1))
    else none
  else some ([], text)

/-- A text without a line feed at its end. -/
def dropFinalNewline (text : List Char) : List Char :=
  if text.getLast? == some '\n' then text.dropLast else text

/-- Whether anything is left of an authority when it has been normalized. -/
def survives (authority : List Char) : Bool :=
  match userinfo? (dropFinalNewline authority) with
  | none => false
  | some (user, rest) =>
    match host? rest with
    | none => false
    | some (host, tail) =>
      match number? tail with
      | none => false
      | some number => !isBadDotted host && !(user.isEmpty && host.isEmpty && number.isEmpty)

end Authority

end HashConditions
