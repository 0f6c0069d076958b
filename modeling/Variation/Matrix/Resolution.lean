import Variation.Axis.Count
import Variation.Axis.Expansion
import Variation.Matrix.Declaration

/-!
# From a matrix file to documents

Resolving a file replaces the place that an axis names for its candidates by what the base document
holds there. The candidates of every axis are taken from the base document as it stands at the
start, in the order of the file, an axis before those under its relationships.

Expanding counts first and refuses to make more documents than a limit allows.
-/

namespace Variation

/-- What is wrong with the candidates that an axis declares. -/
inductive CandidateFault where
  | both
  | neither
deriving DecidableEq

/-- What is wrong with the declared candidates, in words. -/
def CandidateFault.reason : CandidateFault → String
  | .both => "set only one of values and values_from"
  | .neither => "one of values or values_from is required"

/-- Why a matrix cannot be read, resolved or expanded. -/
inductive MatrixError where
  /-- The document is no matrix file. -/
  | invalid (reason : Codec.Mismatch)
  /-- An axis does not say in exactly one way what its candidates are. -/
  | invalidAxis (path : KeyPath) (fault : CandidateFault)
  /-- The matrix makes more documents than the limit allows. -/
  | tooManyDocuments (expected limit : Nat)
  /-- The candidates of an axis cannot be read from the base document. -/
  | candidates (error : AccessError)
  /-- The axes cannot be counted or expanded. -/
  | expansion (error : ExpansionError)

/-- What is wrong with a matrix, in words. -/
def MatrixError.message : MatrixError → String
  | .invalid reason => "invalid matrix definition: " ++ reason.message
  | .invalidAxis path fault => "axis " ++ path.text ++ ": " ++ fault.reason
  | .tooManyDocuments expected limit =>
    "matrix would produce " ++ toString expected ++ " documents, above the limit of "
      ++ toString limit
  | .candidates error => "resolving candidates: " ++ error.message
  | .expansion error => error.message

/-- The axis that a declaration stands for, relationships apart. -/
def resolveCandidates (base : Document) (path : KeyPath) :
    Option (List Document) → Option KeyPath → Except MatrixError (List Document)
  | some values, none => .ok values
  | none, some source =>
    match Axis.fromCandidates path source base with
    | .error error => .error (.candidates error)
    | .ok axis => .ok axis.candidates
  | some _, some _ => .error (.invalidAxis path .both)
  | none, none => .error (.invalidAxis path .neither)

mutual
/-- The axis that a declaration stands for. -/
def resolveAxis (base : Document) : AxisDeclaration → Except MatrixError Axis
  | ⟨path, values, source, relationships⟩ =>
    match resolveCandidates base path values source with
    | .error e => .error e
    | .ok candidates =>
      match resolveRelationships base relationships with
      | .error e => .error e
      | .ok relationships => .ok ⟨path, candidates, relationships⟩

/-- The axes that declarations stand for. -/
def resolveAxes (base : Document) : List AxisDeclaration → Except MatrixError (List Axis)
  | [] => .ok []
  | declared :: rest =>
    match resolveAxis base declared with
    | .error e => .error e
    | .ok axis =>
      match resolveAxes base rest with
      | .error e => .error e
      | .ok axes => .ok (axis :: axes)

/-- The relationship that a declaration stands for. -/
def resolveRelationship (base : Document) :
    RelationshipDeclaration → Except MatrixError Relationship
  | ⟨parent, assignment, children⟩ =>
    match resolveAxes base children with
    | .error e => .error e
    | .ok children => .ok ⟨parent, assignment, children⟩

/-- The relationships that declarations stand for. -/
def resolveRelationships (base : Document) :
    List RelationshipDeclaration → Except MatrixError (List Relationship)
  | [] => .ok []
  | declared :: rest =>
    match resolveRelationship base declared with
    | .error e => .error e
    | .ok relationship =>
      match resolveRelationships base rest with
      | .error e => .error e
      | .ok relationships => .ok (relationship :: relationships)
end

/-- Axes whose candidates are all known. -/
structure Matrix where
  axes : List Axis

namespace Matrix

/-- How many documents are made at most when nothing else is asked for. -/
def defaultLimit : Nat := 1024

/-- The matrix of a file, with the candidates that a base document supplies. -/
def resolve (file : MatrixFile) (base : Document) : Except MatrixError Matrix :=
  match resolveAxes base file.axes with
  | .error e => .error e
  | .ok axes => .ok ⟨axes⟩

/-- The matrix that a document stands for. -/
def ofDocument (document base : Document) : Except MatrixError Matrix :=
  match MatrixFile.ofDocument document with
  | .error reason => .error (.invalid reason)
  | .ok file => resolve file base

/-- The number of documents that a matrix makes. -/
def count (matrix : Matrix) : Except MatrixError Nat :=
  match expectedCount matrix.axes with
  | .error error => .error (.expansion error)
  | .ok n => .ok n

/-- The documents that a matrix makes of a base document, unless they are more than the limit. -/
def expand (matrix : Matrix) (base : Document) (limit : Nat) :
    Except MatrixError (List Document) :=
  match matrix.count with
  | .error e => .error e
  | .ok expected =>
    if limit < expected then .error (.tooManyDocuments expected limit)
    else match permute matrix.axes base with
      | .error error => .error (.expansion error)
      | .ok documents => .ok documents

end Matrix

end Variation
