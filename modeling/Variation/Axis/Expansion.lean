import Variation.Axis.Basic
import Variation.Document.Write

/-!
# Varying a document

`permute` lists the documents that a list of axes makes of a base document. The axes are worked off
one after the other: the first makes a branch of every candidate, with all that its relationships
add, and the remaining axes vary every branch. Documents come in the order of the axes, earlier axes
changing slowest, and of the candidates within each.

All branches of an axis are made before the next axis is looked at. That decides which of two writes
that fail is reported.
-/

namespace Variation

/-- What `f` makes of every element, joined; the first failure is the failure of the whole. -/
def concatEach {α β ε : Type} (f : α → Except ε (List β)) : List α → Except ε (List β)
  | [] => .ok []
  | item :: rest =>
    match f item with
    | .error e => .error e
    | .ok parts =>
      match concatEach f rest with
      | .error e => .error e
      | .ok more => .ok (parts ++ more)

/-- The document with an assignment made, if there is one. -/
def Document.assigned (document : Document) : Option Assignment → Except AccessError Document
  | none => .ok document
  | some assignment => (document.replace assignment.path assignment.value).done

mutual
/-- The documents that axes make of one document. No axes leave it as it is. -/
def expandAxes : List Axis → Document → Except AccessError (List Document)
  | [], document => .ok [document]
  | axis :: rest, document =>
    match expandAxis axis document with
    | .error e => .error e
    | .ok branches => concatEach (fun branch => expandAxes rest branch) branches

/-- The branches of one axis: for every candidate those that its relationships make. -/
def expandAxis : Axis → Document → Except AccessError (List Document)
  | ⟨path, candidates, relationships⟩, document =>
    concatEach
      (fun chosen =>
        match (document.replace path chosen).done with
        | .error e => .error e
        | .ok branch => expandRelationships relationships chosen branch)
      candidates

/-- What relationships make of a branch once a candidate has been chosen. Relationships that hold at
the same time multiply. -/
def expandRelationships :
    List Relationship → Document → Document → Except AccessError (List Document)
  | [], _, document => .ok [document]
  | relationship :: rest, chosen, document =>
    match expandRelationship relationship chosen document with
    | .error e => .error e
    | .ok branches => concatEach (fun branch => expandRelationships rest chosen branch) branches

/-- What one relationship makes of a branch: nothing unless it holds, otherwise its assignment and
then its child axes. -/
def expandRelationship :
    Relationship → Document → Document → Except AccessError (List Document)
  | ⟨parent, assignment, children⟩, chosen, document =>
    if parent.same chosen then
      match document.assigned assignment with
      | .error e => .error e
      | .ok branch => expandAxes children branch
    else .ok [document]
end

/-- The documents that a list of axes makes of a base document. -/
def permute (axes : List Axis) (base : Document) : Except ExpansionError (List Document) :=
  if axes.isEmpty then .error .noAxes
  else match expandAxes axes base with
    | .error e => .error (.access e)
    | .ok documents => .ok documents

end Variation
