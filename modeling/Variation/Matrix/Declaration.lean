import Variation.Axis.Basic
import Variation.Codec.Path
import Variation.Codec.Record

/-!
# Matrix files

A matrix file declares axes. A declared axis differs from an axis in one respect: its candidates are
either listed or taken from a sequence of the base document, and the declaration may get that wrong
by asking for both or for neither; `Matrix.Resolution` decides.

`MatrixFile.ofDocument` reads a file from a document. Axes and relationships hold each other, so
their forms are tied to each other through the depth of the document, which is more than the depth
of what it declares.
-/

namespace Variation

mutual
/-- A declared axis. -/
structure AxisDeclaration where
  path : KeyPath
  /-- The candidates, when they are listed. -/
  values : Option (List Document)
  /-- The place of the candidates in the base document, when they are taken from there. -/
  source : Option KeyPath
  relationships : List RelationshipDeclaration

/-- A declared relationship. -/
structure RelationshipDeclaration where
  parent : Document
  assignment : Option Assignment
  children : List AxisDeclaration
end

/-- What a matrix file declares: axes, in the order in which they are expanded. -/
structure MatrixFile where
  axes : List AxisDeclaration

namespace Document

mutual
/-- How many nodes lie on the longest way down from the root. -/
def depth : Document → Nat
  | .sequence items => depthOfItems items + 1
  | .mapping entries => depthOfEntries entries + 1
  | _ => 1

/-- The greatest depth of items. -/
def depthOfItems : List Document → Nat
  | [] => 0
  | item :: rest => max item.depth (depthOfItems rest)

/-- The greatest depth of values of entries. -/
def depthOfEntries : List (String × Document) → Nat
  | [] => 0
  | (_, value) :: rest => max value.depth (depthOfEntries rest)
end

end Document

namespace Codec

/-- The form of an assignment. -/
def assignmentForm : RecordForm Assignment where
  name := "AssignmentSpec"
  strict := true
  blank := default
  fields :=
    [.of "key_path" true keyPath.decode fun path record => { record with path },
     .of "value" true document.decode fun value record => { record with value }]

/-- The form of a relationship, given how an axis is read. -/
def relationshipForm (axis : Document → Except Mismatch AxisDeclaration) :
    RecordForm RelationshipDeclaration where
  name := "RelationshipSpec"
  strict := true
  blank := ⟨default, none, []⟩
  fields :=
    [.of "parent_value" true document.decode fun parent record => { record with parent },
     .of "assign" false (decodeOptional assignmentForm.decode)
       fun assignment record => { record with assignment },
     .of "child_permutations" false (decodeList axis)
       fun children record => { record with children }]

/-- The form of an axis, given how a relationship is read. -/
def axisForm (relationship : Document → Except Mismatch RelationshipDeclaration) :
    RecordForm AxisDeclaration where
  name := "AxisSpec"
  strict := true
  blank := ⟨default, none, none, []⟩
  fields :=
    [.of "key_path" true keyPath.decode fun path record => { record with path },
     .of "values" false (decodeOptional (decodeList document.decode))
       fun values record => { record with values },
     .of "values_from" false (decodeOptional keyPath.decode)
       fun source record => { record with source },
     .of "relationships" false (decodeList relationship)
       fun relationships record => { record with relationships }]

/-- Reads an axis that is nested less deeply than `depth`. -/
def axisWithin : Nat → Document → Except Mismatch AxisDeclaration
  | 0, _ => .error .tooDeep
  | depth + 1, document =>
    (axisForm (relationshipForm (axisWithin depth)).decode).decode document

/-- The form of a matrix file, given how an axis is read. -/
def matrixFileForm (axis : Document → Except Mismatch AxisDeclaration) : RecordForm MatrixFile where
  name := "MatrixFile"
  strict := true
  blank := ⟨[]⟩
  fields := [.of "permutations" true (decodeList axis) fun axes _ => { axes }]

end Codec

/-- The matrix file that a document stands for. -/
def MatrixFile.ofDocument (document : Document) : Except Codec.Mismatch MatrixFile :=
  (Codec.matrixFileForm (Codec.axisWithin document.depth)).decode document

end Variation
