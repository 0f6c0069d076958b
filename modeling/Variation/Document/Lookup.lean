import Variation.Document.Access

/-!
# Reading at a path

A key steps into a mapping, an index into one element of a sequence. A key that meets a sequence is
*spread*: the rest of the path is read from every element, through sequences in sequences, and the
elements have to agree on what is read. The value is then the one read last.

The recursion has two layers. `spread` goes down through nested sequences and is structural on the
document; `lookupFrom` goes along the path and is structural on the segments.
-/

namespace Variation.Document

mutual
/-- What every node under nested sequences yields, if they agree; `place` leads to the outermost
sequence. -/
def spread (place : List Segment) (read : Document → Except AccessError Document) :
    Document → Except AccessError Document
  | .sequence items => spreadItems place read none items
  | node => read node

/-- What the elements of a sequence yield, if they agree with each other and with `agreed`, which
the elements before them have yielded. -/
def spreadItems (place : List Segment) (read : Document → Except AccessError Document)
    (agreed : Option Document) : List Document → Except AccessError Document
  | [] => agreed.elim (.error (.emptySequence place)) .ok
  | item :: rest =>
    match spread place read item with
    | .error e => .error e
    | .ok value =>
      if agreed.all (·.same value) then spreadItems place read (some value) rest
      else .error (.divergentSequence place)
end

/-- The value at the end of `segments`, `place` being the segments followed before. -/
def lookupFrom (place : List Segment) : List Segment → Document → Except AccessError Document
  | [], node => .ok node
  | .key name :: rest, node =>
    let next := place ++ [.key name]
    node.spread place fun
      | .mapping entries =>
        match Entries.lookup? name entries with
        | some child => lookupFrom next rest child
        | none => .error (.missingKey next)
      | other => .error (.typeMismatch next .mapping other.shape)
  | .index position :: rest, node =>
    let next := place ++ [.index position]
    match node with
    | .sequence items =>
      match items[position.toNat]? with
      | some child => lookupFrom next rest child
      | none => .error (.indexOutOfRange next position items.length)
    | other => .error (.typeMismatch next .sequence other.shape)

/-- The value at a path. -/
def get (document : Document) (path : KeyPath) : Except AccessError Document :=
  document.lookupFrom [] path.segments

end Variation.Document
