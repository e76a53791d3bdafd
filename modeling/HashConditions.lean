import HashConditions.Bytes.Basic
import HashConditions.Bytes.Lemmas
import HashConditions.Bytes.Order
import HashConditions.Condition.Basic
import HashConditions.Condition.Binary
import HashConditions.Condition.Contents
import HashConditions.Condition.Cost
import HashConditions.Condition.Derive
import HashConditions.Condition.Offer
import HashConditions.Condition.Offer.Contents
import HashConditions.Condition.Offer.Cost
import HashConditions.ConditionType
import HashConditions.Der.Choice
import HashConditions.Der.Cursor
import HashConditions.Der.Element
import HashConditions.Der.Lemmas
import HashConditions.Der.Offer
import HashConditions.Der.Offer.Span
import HashConditions.Der.Region
import HashConditions.Der.Session
import HashConditions.Der.Window
import HashConditions.Digest.Sha2
import HashConditions.Failure.Basic
import HashConditions.Failure.Invalid
import HashConditions.Failure.Malformed
import HashConditions.Failure.UriFault
import HashConditions.Fulfillment.Basic
import HashConditions.Fulfillment.Build
import HashConditions.Fulfillment.Decode
import HashConditions.Fulfillment.Encode
import HashConditions.Fulfillment.Offer
import HashConditions.Number.Amount
import HashConditions.Number.Floating
import HashConditions.Number.Shortest
import HashConditions.Offered.Basic
import HashConditions.Offered.Convert
import HashConditions.Offered.Labelled
import HashConditions.Offered.Shown
import HashConditions.Proofs.Base64Url
import HashConditions.Proofs.Binding
import HashConditions.Proofs.Bits
import HashConditions.Proofs.Building
import HashConditions.Proofs.CanonicalText
import HashConditions.Proofs.Choosing
import HashConditions.Proofs.ConditionCodec
import HashConditions.Proofs.Correspondence
import HashConditions.Proofs.Costs
import HashConditions.Proofs.Cutting
import HashConditions.Proofs.Decimals
import HashConditions.Proofs.FulfillmentCodec
import HashConditions.Proofs.Locality
import HashConditions.Proofs.Locating
import HashConditions.Proofs.PlainText
import HashConditions.Proofs.Presenting
import HashConditions.Proofs.Reading
import HashConditions.Proofs.Replacing
import HashConditions.Proofs.Requirements
import HashConditions.Proofs.SetReading
import HashConditions.Proofs.Sorting
import HashConditions.Proofs.UriCodec
import HashConditions.Proofs.WindowReading
import HashConditions.Proofs.Work
import HashConditions.Signature.Ed25519
import HashConditions.Signature.Exponent
import HashConditions.Signature.RsaPss
import HashConditions.Text.Hex
import HashConditions.Text.Numeral
import HashConditions.Text.Printable
import HashConditions.Text.Quoted
import HashConditions.Text.Utf8
import HashConditions.TypeSet
import HashConditions.TypeSet.Binary
import HashConditions.TypeSet.Offer
import HashConditions.Uri.Authority
import HashConditions.Uri.Base64Url
import HashConditions.Uri.Condition
import HashConditions.Uri.Percent
import HashConditions.Uri.Query
import HashConditions.Uri.Reference
import HashConditions.Verification.Basic
import HashConditions.Verification.Offer
import HashConditions.Verification.Provider
import HashConditions.Proofs.KeptChildren
import HashConditions.Proofs.Sessions
import HashConditions.Proofs.TypesBeneath
import HashConditions.Proofs.UriFailures
import HashConditions.Proofs.UriReading
import HashConditions.Proofs.UriComponents
import HashConditions.Proofs.CostBound
import HashConditions.Proofs.RsaKeys
import HashConditions.Proofs.WorstCase
import HashConditions.Proofs.Normalizing
import HashConditions.Proofs.QueryFields
import HashConditions.Proofs.QueryOrder
import HashConditions.Proofs.Integers
import HashConditions.Proofs.Elements
import HashConditions.Proofs.SetOrder
import HashConditions.Proofs.Unfolding
