import Variation.Decimal.Layout
import Variation.Document.Basic
import Variation.Json.Error
import Variation.Json.Writer
import Variation.Text.Quoted

/-!
# Documents of the wrong form

A document that is read as a value of some type may not have the form that the type asks for.
`Mismatch` says how it fails to, `Unfit` says why a value has no document. In messages a document
is shown with its value when it is a scalar and by its shape otherwise.
-/

namespace Variation.Codec

/-- A document as a message shows it. -/
def shown : Document → String
  | .null => "null"
  | .boolean true => "boolean `true`"
  | .boolean false => "boolean `false`"
  | .whole n => "integer `" ++ toString n.value ++ "`"
  | .real x => "floating point `" ++ String.ofList (Json.realLayout.render x) ++ "`"
  | .text s => "string " ++ Text.quote s
  | .sequence _ => "sequence"
  | .mapping _ => "map"

/-- Why a document is not of the form that is asked for. -/
inductive Mismatch where
  /-- Another kind of document is expected. -/
  | wrongType (found : Document) (expected : String)
  /-- The kind is right, the value is not. -/
  | wrongValue (found : Document) (expected : String)
  /-- A sequence has too few items, or too many. -/
  | wrongLength (length : Nat) (expected : String)
  /-- A mapping has a key that is no field of the record. -/
  | unknownField (name : String) (known : List String)
  /-- A mapping lacks a field of the record. -/
  | missingField (name : String)
  /-- An item of a path is neither a key nor a position. -/
  | noSegment
  /-- A path has no segments. -/
  | emptyPath
  /-- The key of a mapping is no number. -/
  | keyNotNumber
  /-- The key of a mapping is a malformed number. -/
  | keyMalformed (error : Json.JsonError)
  /-- The number that a key holds does not fit; the place is the end of the number. -/
  | keyUnfit (place : Json.Position) (reason : Mismatch)
  /-- Records are nested more deeply than the document, which no document is. -/
  | tooDeep

/-- The names of the fields that a record has, as a message lists them. -/
def fieldList : List String → String
  | [] => "there are no fields"
  | [a] => "expected `" ++ a ++ "`"
  | [a, b] => "expected `" ++ a ++ "` or `" ++ b ++ "`"
  | names => "expected one of `" ++ "`, `".intercalate names ++ "`"

/-- What is wrong with a document, in words. -/
def Mismatch.message : Mismatch → String
  | .wrongType found expected => "invalid type: " ++ shown found ++ ", expected " ++ expected
  | .wrongValue found expected => "invalid value: " ++ shown found ++ ", expected " ++ expected
  | .wrongLength length expected =>
    "invalid length " ++ toString length ++ ", expected " ++ expected
  | .unknownField name known => "unknown field `" ++ name ++ "`, " ++ fieldList known
  | .missingField name => "missing field `" ++ name ++ "`"
  | .noSegment => "data did not match any variant of untagged enum Segment"
  | .emptyPath => "key path must contain at least one segment"
  | .keyNotNumber => "invalid value: expected key to be a number in quotes"
  | .keyMalformed error => error.message
  | .keyUnfit place reason => reason.message ++ place.suffix
  | .tooDeep => "records nested too deeply"

/-- Why a value has no document. -/
inductive Unfit where
  /-- The key of a map has no text. -/
  | keyNotText
  /-- A whole number needs more than 64 bits. -/
  | outOfRange
deriving DecidableEq

/-- Why a value has no document, in words. -/
def Unfit.message : Unfit → String
  | .keyNotText => "key must be a string"
  | .outOfRange => "number out of range"

end Variation.Codec
