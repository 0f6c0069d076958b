import Variation.Document.Lookup

/-!
# Axes

An axis is a place in a document and the candidates that are written to it in turn. A relationship
ties further changes to one candidate: an assignment, which writes one fixed value, and child axes,
which vary the document further. Relationships nest to any depth.
-/

namespace Variation

/-- A value and the place that it is written to. -/
structure Assignment where
  path : KeyPath
  value : Document
deriving Inhabited

mutual
/-- A place and the values that it takes in turn. -/
structure Axis where
  path : KeyPath
  candidates : List Document
  relationships : List Relationship

/-- What follows from the choice of one candidate. -/
structure Relationship where
  /-- The candidate that makes the relationship hold. -/
  parent : Document
  assignment : Option Assignment
  children : List Axis
end

/-- Whether a relationship holds once a candidate has been chosen. -/
def Relationship.holdsFor (relationship : Relationship) (chosen : Document) : Bool :=
  relationship.parent.same chosen

/-- The axis whose candidates are the elements of a sequence in a document. -/
def Axis.fromCandidates (path source : KeyPath) (document : Document) :
    Except AccessError Axis :=
  match document.get source with
  | .error error => .error error
  | .ok (.sequence items) => .ok ⟨path, items, []⟩
  | .ok other => .error (.typeMismatch source.segments .sequence other.shape)

/-- Why a document is not varied along axes. -/
inductive ExpansionError where
  /-- There are no axes. -/
  | noAxes
  /-- The number of documents does not fit 64 bits. -/
  | countOverflow
  /-- A value cannot be written. -/
  | access (error : AccessError)
deriving DecidableEq

/-- Why a document is not varied, in words. -/
def ExpansionError.message : ExpansionError → String
  | .noAxes => "no permutations supplied"
  | .countOverflow => "permutation count overflows a 64-bit counter"
  | .access error => error.message

end Variation
