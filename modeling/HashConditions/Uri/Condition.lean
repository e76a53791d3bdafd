import HashConditions.Condition.Basic
import HashConditions.Failure.Basic
import HashConditions.Text.Numeral
import HashConditions.Uri.Base64Url
import HashConditions.Uri.Query
import HashConditions.Uri.Reference

/-!
# Condition URIs

    ni:///sha-256;<fingerprint>?fpt=<type>&cost=<cost>[&subtypes=<types>]

Writing is unique: the parameters come in this order, and the subtypes by ascending code.

Reading starts from the normalized reference, takes the parameters in any order and ignores the
ones it does not know. A line feed behind the digits of the cost is overlooked. A cost of more
than 4300 digits is not converted at all, and that failure is not one of the URI.
-/

namespace HashConditions

namespace Uri

/-- The scheme of named information. -/
def schemeName : List Char :=
  "ni".toList

/-- The name of the hash function. -/
def hashName : List Char :=
  "sha-256".toList

/-! ### Writing -/

/-- The subtypes parameter. -/
def writeSubtypes : Option TypeSet → List Char
  | none => []
  | some subtypes =>
    "&subtypes=".toList ++ [','].intercalate (subtypes.toList.map fun t => t.name.toList)

/-- The characters of the URI of a condition. -/
def write (c : Condition) : List Char :=
  schemeName ++ ":///".toList ++ hashName ++ ";".toList ++ Base64Url.encode c.fingerprint ++
    "?fpt=".toList ++ c.type.name.toList ++ "&cost=".toList ++ Text.decimal c.cost ++
    writeSubtypes c.subtypes

/-! ### Reading -/

/-- The components without which a reference cannot name a condition, as far as they are not
there. -/
def missing (r : Normalized) : List UriComponent :=
  (if r.path.isNone then [.path] else []) ++ (if r.query.isNone then [.query] else []) ++
    (if r.scheme.isNone then [.scheme] else [])

/-- Path and query of a reference that has the components of a condition URI and no others. -/
def required (r : Normalized) : Except UriFault (List Char × List Char) :=
  match r.path, r.query, r.scheme with
  | some path, some query, some scheme =>
    if scheme ≠ schemeName then .error (.foreignScheme (String.ofList scheme))
    else if r.hasAuthority then .error .authority
    else if r.fragment.any (!·.isEmpty) then .error .fragment
    else .ok (path, query)
  | _, _, _ => .error (.missingComponents (missing r))

/-- The fingerprint that a path holds, behind the name of the hash function. -/
def fingerprintOfPath (path : List Char) : Except UriFault Bytes :=
  let text := path.dropWhile (· == '/')
  let algorithm := text.takeWhile (· != ';')
  let tail := text.drop algorithm.length
  if tail.isEmpty ∨ algorithm.map Char.toLower ≠ hashName then
    .error (.hashFunction (String.ofList algorithm))
  else
    match Base64Url.decode (tail.drop 1) with
    | .error fault => .error fault
    | .ok fingerprint =>
      if fingerprint.length = fingerprintLength then .ok fingerprint
      else .error (.fingerprintLength fingerprint.length)

/-- The type parameter. -/
def typeOf (parameters : List Parameter) : Except UriFault ConditionType :=
  match parameters.lookup "fpt".toList with
  | none => .error .typeMissing
  | some name =>
    match ConditionType.ofLetters? name with
    | none => .error (.unknownType (String.ofList name))
    | some type => .ok type

/-- The cost parameter. -/
def costOf (parameters : List Parameter) : Except Failure Nat :=
  match parameters.lookup "cost".toList with
  | none => .error (.uri .costMissing)
  | some text =>
    let digits := Authority.dropFinalNewline text
    if !Text.canonicalDigits digits then .error (.uri (.costText (String.ofList text)))
    else if digits.length > Text.maxDigits then
      .error (.unrepresentable (.digits digits.length))
    else .ok (Text.ofDecimal digits)

/-- The types with the given names. -/
def typesOfNames : List (List Char) → Except UriFault (List ConditionType)
  | [] => .ok []
  | name :: names =>
    match ConditionType.ofLetters? name with
    | none => .error (.unknownSubtype (String.ofList name))
    | some type =>
      match typesOfNames names with
      | .error fault => .error fault
      | .ok types => .ok (type :: types)

/-- The subtypes parameter, which compound types have and simple ones do not. -/
def subtypesOf (type : ConditionType) (parameters : List Parameter) :
    Except UriFault (Option TypeSet) :=
  match type.isCompound, parameters.lookup "subtypes".toList with
  | true, none => .error .subtypesMissing
  | true, some text =>
    match typesOfNames ((text.splitOn ',').filter (!·.isEmpty)) with
    | .error fault => .error fault
    | .ok types => .ok (some (TypeSet.ofList types))
  | false, none => .ok none
  | false, some _ => .error (.subtypesForbidden type)

/-- The condition that a text is the URI of. -/
def read (text : List Char) : Except Failure Condition := do
  let (path, query) ← (required (split (Text.strip text)).normalize).mapError .uri
  let fingerprint ← (fingerprintOfPath path).mapError .uri
  let parameters ← (parameters query).mapError .uri
  let type ← (typeOf parameters).mapError .uri
  let cost ← costOf parameters
  let subtypes ← (subtypesOf type parameters).mapError .uri
  (Condition.make type fingerprint cost subtypes).mapError fun why => .uri (.invalid why)

end Uri

namespace Condition

/-- The URI of a condition. -/
def toUri (c : Condition) : String :=
  String.ofList (Uri.write c)

/-- The condition that a text is the URI of. -/
def ofUri (text : String) : Except Failure Condition :=
  Uri.read text.toList

end Condition

end HashConditions
