import Variation.Codec.Basic
import Variation.Path.Basic

/-!
# Key paths as documents

The list form of a path is the sequence of its segments: a key is a text, a position a whole number.
Unlike the text of a path it can hold every key.
-/

namespace Variation.Codec

/-- Segments: texts are keys, whole numbers that fit a position are positions. -/
def segment : Codec Segment where
  encode
    | .key name => .ok (.text name)
    | .index position => .ok (.whole (.ofWord position))
  decode
    | .text name => .ok (.key name)
    | .whole n =>
      if 0 ≤ n.value then .ok (.index (UInt64.ofNat n.value.toNat)) else .error .noSegment
    | _ => .error .noSegment

/-- Paths, as sequences of at least one segment. -/
def keyPath : Codec KeyPath where
  encode path := (list segment).encode path.segments
  decode document :=
    match (list segment).decode document with
    | .error reason => .error reason
    | .ok segments => (KeyPath.ofSegments? segments).elim (.error .emptyPath) .ok

end Variation.Codec
