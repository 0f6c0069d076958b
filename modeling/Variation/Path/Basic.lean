/-!
# Key paths

A key path says where in a document to look: a key of a mapping, or a position in a sequence, one
segment after the other. A path has at least one segment, which its type says.

The text of a path joins the texts of its segments by points. `Path.Reading` reads it back; a key
that holds a point or starts with a bracket has no text that does.
-/

namespace Variation

/-- One step of a path. -/
inductive Segment where
  /-- The entry of a mapping; on a sequence the key is looked up in every element. -/
  | key (name : String)
  /-- One element of a sequence, counted from zero. -/
  | index (position : UInt64)
deriving DecidableEq, Inhabited

/-- The text of a segment: a key stands for itself, a position stands in brackets. -/
def Segment.text : Segment → String
  | .key name => name
  | .index position => "[" ++ String.ofList (Nat.toDigits 10 position.toNat) ++ "]"

/-- One or more segments. -/
structure KeyPath where
  first : Segment
  rest : List Segment
deriving DecidableEq, Inhabited

namespace KeyPath

/-- The segments of a path, in the order in which they are followed. -/
def segments (path : KeyPath) : List Segment :=
  path.first :: path.rest

/-- The path with the given segments, if there is one. -/
def ofSegments? : List Segment → Option KeyPath
  | [] => none
  | first :: rest => some ⟨first, rest⟩

/-- The text of segments, joined by points. -/
def textOf (segments : List Segment) : String :=
  ".".intercalate (segments.map Segment.text)

/-- The text of a path. -/
def text (path : KeyPath) : String :=
  textOf path.segments

theorem ofSegments?_segments (path : KeyPath) : ofSegments? path.segments = some path := rfl

theorem segments_of_ofSegments? {segments : List Segment} {path : KeyPath}
    (h : ofSegments? segments = some path) : path.segments = segments := by
  cases segments with
  | nil => cases h
  | cons first rest => cases h; rfl

end KeyPath

/-- The name of a place in messages: the text of the segments that lead to it, or the root. -/
def placeName : List Segment → String
  | [] => "<root>"
  | segments => KeyPath.textOf segments

end Variation
