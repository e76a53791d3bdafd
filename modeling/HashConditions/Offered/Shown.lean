import HashConditions.Failure.Basic
import HashConditions.Number.Shortest
import HashConditions.Offered.Basic
import HashConditions.Uri.Condition

/-!
# Offered values in messages

A message shows a value in one of two ways. `quoted` is the way of code: texts and octets stand in
quotes, and a condition or a fulfillment lists its fields. `shown` is the way of prose: a text
stands for itself, and a condition is its URI. Within a list, items are always quoted.

An integer of more than 4300 digits is not written, so a value that is one, or holds one, cannot
be shown.
-/

namespace HashConditions

/-- Items between brackets. -/
def bracketed (left right : String) (items : List String) : String :=
  left ++ ", ".intercalate items ++ right

/-- Items between round brackets; a single one is followed by a comma. -/
def inParentheses (items : List String) : String :=
  bracketed "(" (if items.length = 1 then ",)" else ")") items

/-- Octets in quotes, with the name of what holds them unless that is an octet string. The octets
of a view are not shown. -/
def Bytes.quoted (bs : Bytes) : Holder → String
  | .string => String.ofList (Text.quotedOctets bs)
  | .buffer => "bytearray(" ++ String.ofList (Text.quotedBuffer bs) ++ ")"
  | .view => "<memory>"

/-- A type with its code. -/
def ConditionType.quoted (t : ConditionType) : String :=
  let label := match t with
    | preimageSha256 => "PREIMAGE_SHA256"
    | prefixSha256 => "PREFIX_SHA256"
    | thresholdSha256 => "THRESHOLD_SHA256"
    | rsaSha256 => "RSA_SHA256"
    | ed25519Sha256 => "ED25519_SHA256"
  s!"<ConditionType.{label}: {t.code}>"

/-- The types in a set, by ascending code. -/
def TypeSet.quoted (s : TypeSet) : String :=
  match s.toList with
  | [] => "frozenset()"
  | types => bracketed "frozenset(\x7b" "\x7d)" (types.map ConditionType.quoted)

/-- The fields of a condition. -/
def Condition.quoted (c : Condition) : String :=
  let subtypes := (c.subtypes.map TypeSet.quoted).getD "None"
  bracketed "Condition(" ")"
    [s!"type={c.type.quoted}", s!"fingerprint={c.fingerprint.quoted .string}", s!"cost={c.cost}",
      s!"subtypes={subtypes}"]

/-- The text of the public exponent. -/
def PublicExponent.text : PublicExponent → String
  | integer => toString value
  | floating => String.ofList (Floating.ofDecimal false value 0).text

/-- The fields of a fulfillment. -/
def Fulfillment.quoted (f : Fulfillment) : String :=
  let fields := match f with
    | preimage bs _ => [s!"preimage={bs.quoted .string}"]
    | prefixed lead limit sub _ =>
      [s!"prefix={lead.quoted .string}", s!"max_message_length={limit}",
        s!"subfulfillment={sub.quoted}"]
    | threshold subconditions subfulfillments _ =>
      [s!"subconditions={inParentheses (subconditions.map Condition.quoted)}",
        s!"subfulfillments={inParentheses (subfulfillments.map quoted)}"]
    | rsa modulus exponent signature _ =>
      [s!"modulus={modulus}", s!"signature={signature.quoted .string}",
        s!"public_exponent={exponent.text}"]
    | ed25519 publicKey signature _ =>
      [s!"public_key={publicKey.quoted .string}", s!"signature={signature.quoted .string}"]
  bracketed (f.kind ++ "(") ")" fields

namespace Offered

mutual

/-- A value as code writes it. -/
def quoted : Offered → Except Unrepresentable String
  | nothing => .ok "None"
  | truth b => .ok (if b then "True" else "False")
  | integer n => decimalText n
  | floating x => .ok (String.ofList x.text)
  | text s => .ok (String.ofList (Text.quoted s.toList))
  | octets holder bs => .ok (bs.quoted holder)
  | list items => (quotedItems items).map (bracketed "[" "]")
  | types s => .ok s.quoted
  | condition c => .ok c.quoted
  | fulfillment f => .ok f.quoted

/-- The items of a list as code writes them. -/
def quotedItems : List Offered → Except Unrepresentable (List String)
  | [] => .ok []
  | v :: vs => do return (← quoted v) :: (← quotedItems vs)

end

/-- A value as prose writes it. -/
def shown : Offered → Except Unrepresentable String
  | text s => .ok s
  | condition c => .ok c.toUri
  | v => v.quoted

end Offered

end HashConditions
