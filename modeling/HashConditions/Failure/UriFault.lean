import HashConditions.Failure.Invalid
import HashConditions.Text.Quoted

/-!
# Malformed URIs

Why a text is no condition URI. Most causes are about one part of the URI or one parameter of
its query, which `UriFault.field?` names; the message ends with that name.
-/

namespace HashConditions

/-- The components of a URI without which it cannot name a condition. -/
inductive UriComponent
  | path
  | query
  | scheme
deriving DecidableEq

/-- The name of a component in a message. -/
def UriComponent.name : UriComponent → String
  | path => "path"
  | query => "query"
  | scheme => "scheme"

/-- What is wrong with a condition URI. -/
inductive UriFault
  /-- Something else than a text. -/
  | notText
  /-- Components that are not there, by name. -/
  | missingComponents (components : List UriComponent)
  /-- Another scheme than that of named information. -/
  | foreignScheme (scheme : String)
  /-- An authority. -/
  | authority
  /-- A fragment. -/
  | fragment
  /-- A path that names no supported hash function. -/
  | hashFunction (algorithm : String)
  /-- A fingerprint with a character outside the alphabet. -/
  | fingerprintAlphabet
  /-- A fingerprint that ends within a group of characters. -/
  | fingerprintGroups
  /-- A fingerprint that is not the text of its octets, as when bits stand for nothing. -/
  | fingerprintBits
  /-- A fingerprint of another length than that of a digest. -/
  | fingerprintLength (found : Nat)
  /-- A query field without an equals sign. -/
  | queryField (field : String)
  /-- A parameter that is given twice. -/
  | duplicate (key : String)
  /-- No type. -/
  | typeMissing
  /-- A name that no type has. -/
  | unknownType (name : String)
  /-- No cost. -/
  | costMissing
  /-- A cost that is no decimal number. -/
  | costText (text : String)
  /-- No subtypes for a compound type. -/
  | subtypesMissing
  /-- A name among the subtypes that no type has. -/
  | unknownSubtype (name : String)
  /-- Subtypes for a simple type. -/
  | subtypesForbidden (type : ConditionType)
  /-- Parts that are well written and yet make no condition. -/
  | invalid (why : Invalid)
deriving DecidableEq

namespace UriFault

/-- The part of the URI that a cause is about. -/
def field? : UriFault → Option String
  | notText | missingComponents _ | foreignScheme _ | invalid _ => none
  | authority => some "authority"
  | fragment => some "fragment"
  | hashFunction _ => some "path"
  | fingerprintAlphabet | fingerprintGroups | fingerprintBits | fingerprintLength _ =>
    some "fingerprint"
  | queryField _ => some "query"
  | duplicate key => some key
  | typeMissing | unknownType _ => some "fpt"
  | costMissing | costText _ => some "cost"
  | subtypesMissing | unknownSubtype _ | subtypesForbidden _ => some "subtypes"

/-- The failure to build a value that a cause passes on. -/
def cause? : UriFault → Option Invalid
  | invalid why => some why
  | _ => none

/-- The wording of a cause. -/
def sentence : UriFault → String
  | notText => "condition URI must be a string"
  | missingComponents components =>
    let names := ", ".intercalate (components.map UriComponent.name)
    let verb := if components.length = 1 then "was" else "were"
    s!"Invalid condition URI: {names} {verb} required but missing"
  | foreignScheme scheme =>
    s!"Invalid condition URI: scheme was required to be one of ['ni'] but was '{scheme}'"
  | authority => "condition URI must not name an authority"
  | fragment => "condition URI must not contain a fragment"
  | hashFunction algorithm => s!"unsupported hash function '{algorithm}'"
  | fingerprintAlphabet => "fingerprint is not unpadded base64url"
  | fingerprintGroups => "fingerprint is not valid base64url"
  | fingerprintBits => "fingerprint is not canonical base64url"
  | fingerprintLength found => s!"fingerprint must be 32 bytes, got {found}"
  | queryField field =>
    "malformed query: bad query field: " ++ String.ofList (Text.quoted field.toList)
  | duplicate key => s!"duplicate query parameter '{key}'"
  | typeMissing => "missing fingerprint type"
  | unknownType name => s!"unknown condition type '{name}'"
  | costMissing => "missing cost"
  | costText text => s!"cost '{text}' is not a decimal integer"
  | subtypesMissing => "missing subtypes for compound condition"
  | unknownSubtype name => s!"Unknown condition type name: {name}"
  | subtypesForbidden type => s!"{type.name} condition cannot carry subtypes"
  | invalid why => why.message

/-- The wording of a cause, with the part that it is about. -/
def message (e : UriFault) : String :=
  match e.field? with
  | some field => s!"{e.sentence} (field={field})"
  | none => e.sentence

end UriFault

end HashConditions
