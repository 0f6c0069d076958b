import Variation.Document.Write

/-!
# The leaves of a document

A leaf is a scalar strictly below the root. `leafPaths` lists the paths to them, depth first, the
keys of a mapping in their order and the elements of a sequence by index; no path in the list passes
through a sequence by a key. `poison` overwrites them all.
-/

namespace Variation.Document

mutual
/-- The segments that lead to every scalar of a node, after the segments that lead to the node. -/
def leavesFrom (place : List Segment) : Document → List (List Segment)
  | .sequence items => itemLeaves place 0 items
  | .mapping entries => entryLeaves place entries
  | _ => [place]

/-- The leaves of the elements of a sequence from position `position` on. -/
def itemLeaves (place : List Segment) (position : Nat) : List Document → List (List Segment)
  | [] => []
  | item :: rest =>
    leavesFrom (place ++ [.index (UInt64.ofNat position)]) item
      ++ itemLeaves place (position + 1) rest

/-- The leaves of the entries of a mapping. -/
def entryLeaves (place : List Segment) : List (String × Document) → List (List Segment)
  | [] => []
  | (name, child) :: rest =>
    leavesFrom (place ++ [.key name]) child ++ entryLeaves place rest
end

/-- The paths of all leaves. A scalar that is the whole document has no path and is no leaf. -/
def leafPaths (document : Document) : List KeyPath :=
  (document.leavesFrom []).filterMap KeyPath.ofSegments?

/-- Writes a value at every path in turn, up to the first write that fails. -/
def writeAll (value : Document) : List KeyPath → Document → Written
  | [], document => ⟨document, none⟩
  | path :: rest, document =>
    match document.replace path value with
    | ⟨after, some fault⟩ => ⟨after, some fault⟩
    | ⟨after, none⟩ => writeAll value rest after

/-- Overwrites every leaf with a marker. -/
def poison (document marker : Document) : Written :=
  writeAll marker document.leafPaths document

end Variation.Document
