import Variation.Document.Basic
import Variation.Path.Basic

/-!
# Where an access can go wrong

Reading and overwriting follow a path step by step. A step fails where the node at hand does not fit
the segment; reading a key out of a sequence also fails where the elements do not agree. Each error
carries the segments that lead to the place it speaks of.
-/

namespace Variation

/-- Why a path cannot be followed in a document. -/
inductive AccessError where
  /-- A mapping has no such key; `place` ends with it. -/
  | missingKey (place : List Segment)
  /-- A sequence is too short; `place` ends with the position. -/
  | indexOutOfRange (place : List Segment) (index : UInt64) (length : Nat)
  /-- A segment meets a node of another shape; `place` ends with the segment. -/
  | typeMismatch (place : List Segment) (expected found : Shape)
  /-- A key is looked up in every element of a sequence that has none. -/
  | emptySequence (place : List Segment)
  /-- A key is looked up in every element of a sequence, and two elements differ. -/
  | divergentSequence (place : List Segment)
deriving DecidableEq

/-- Why a path cannot be followed, in words. -/
def AccessError.message : AccessError → String
  | .missingKey place => "missing key at " ++ placeName place
  | .indexOutOfRange place index length =>
    "index " ++ toString index.toNat ++ " out of range at " ++ placeName place
      ++ " (sequence has " ++ toString length ++ " elements)"
  | .typeMismatch place expected found =>
    "expected " ++ expected.name ++ " at " ++ placeName place ++ ", found " ++ found.name
  | .emptySequence place => "cannot read through empty sequence at " ++ placeName place
  | .divergentSequence place =>
    "sequence elements disagree at " ++ placeName place
      ++ "; address one element with an index segment"

end Variation
