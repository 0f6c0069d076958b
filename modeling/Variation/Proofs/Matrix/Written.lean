import Mathlib.Data.List.Forall2
import Variation.Matrix.Declaration
import Variation.Proofs.Codec.Decoding

/-!
# Ways to write a matrix file

A matrix file may be written in several ways: a field without a value is left out or is `null`, an
empty list of relationships or of child axes is left out or is there. `WrittenAs` are these ways, as
relations between what is declared and documents, and every file can be written.

`fieldsAt` finds the mappings of a written file by their positions and says which fields each of them
has.
-/

namespace Variation

open List (Forall₂)

/-! ## Ways to write a file -/

/-- A field that may be without a value. -/
inductive OptionalField (name : String) : Option Document → List (String × Document) → Prop
  | given (value : Document) : OptionalField name (some value) [(name, value)]
  | null : OptionalField name none [(name, .null)]
  | leftOut : OptionalField name none []

/-- A field that holds a list. -/
inductive ListField (name : String) : List Document → List (String × Document) → Prop
  | given (items : List Document) : ListField name items [(name, .sequence items)]
  | leftOut : ListField name [] []

def Assignment.document (assignment : Assignment) : Document :=
  .ofPairs [("key_path", assignment.path.document), ("value", assignment.value)]

mutual
inductive AxisDeclaration.WrittenAs : AxisDeclaration → Document → Prop
  | mapping (path : KeyPath) {values : Option (List Document)} {source : Option KeyPath}
      {relationships : List RelationshipDeclaration} {documents : List Document}
      {listed taken tied : List (String × Document)}
      (hvalues : OptionalField "values" (values.map .sequence) listed)
      (hsource : OptionalField "values_from" (source.map KeyPath.document) taken)
      (hwritten : Forall₂ RelationshipDeclaration.WrittenAs relationships documents)
      (hrelationships : ListField "relationships" documents tied) :
      AxisDeclaration.WrittenAs ⟨path, values, source, relationships⟩
        (.ofPairs ([("key_path", path.document)] ++ listed ++ taken ++ tied))

inductive RelationshipDeclaration.WrittenAs : RelationshipDeclaration → Document → Prop
  | mapping (parent : Document) {assignment : Option Assignment} {children : List AxisDeclaration}
      {documents : List Document} {assigned nested : List (String × Document)}
      (hassignment : OptionalField "assign" (assignment.map Assignment.document) assigned)
      (hwritten : Forall₂ AxisDeclaration.WrittenAs children documents)
      (hchildren : ListField "child_permutations" documents nested) :
      RelationshipDeclaration.WrittenAs ⟨parent, assignment, children⟩
        (.ofPairs ([("parent_value", parent)] ++ assigned ++ nested))
end

inductive MatrixFile.WrittenAs : MatrixFile → Document → Prop
  | mapping {axes : List AxisDeclaration} {documents : List Document}
      (hwritten : Forall₂ AxisDeclaration.WrittenAs axes documents) :
      MatrixFile.WrittenAs ⟨axes⟩ (.ofPairs [("permutations", .sequence documents)])

/-! ### Every file can be written -/

theorem OptionalField.exists_fields (name : String) (value : Option Document) :
    ∃ part, OptionalField name value part := by
  cases value with
  | none => exact ⟨_, .leftOut⟩
  | some value => exact ⟨_, .given value⟩

mutual
/-- One way is to leave out what has no value, and to keep every list. -/
theorem AxisDeclaration.exists_writtenAs : ∀ axis : AxisDeclaration,
    ∃ document, axis.WrittenAs document
  | ⟨path, values, source, relationships⟩ => by
    obtain ⟨listed, hvalues⟩ := OptionalField.exists_fields "values" (values.map .sequence)
    obtain ⟨taken, hsource⟩ :=
      OptionalField.exists_fields "values_from" (source.map KeyPath.document)
    obtain ⟨documents, hwritten⟩ := exists_relationships_writtenAs relationships
    exact ⟨_, .mapping path hvalues hsource hwritten (.given documents)⟩

theorem exists_axes_writtenAs : ∀ axes : List AxisDeclaration,
    ∃ documents, Forall₂ AxisDeclaration.WrittenAs axes documents
  | [] => ⟨[], .nil⟩
  | axis :: rest => by
    obtain ⟨document, first⟩ := axis.exists_writtenAs
    obtain ⟨documents, behind⟩ := exists_axes_writtenAs rest
    exact ⟨document :: documents, .cons first behind⟩

theorem RelationshipDeclaration.exists_writtenAs : ∀ relationship : RelationshipDeclaration,
    ∃ document, relationship.WrittenAs document
  | ⟨parent, assignment, children⟩ => by
    obtain ⟨assigned, hassignment⟩ :=
      OptionalField.exists_fields "assign" (assignment.map Assignment.document)
    obtain ⟨documents, hwritten⟩ := exists_axes_writtenAs children
    exact ⟨_, .mapping parent hassignment hwritten (.given documents)⟩

theorem exists_relationships_writtenAs : ∀ relationships : List RelationshipDeclaration,
    ∃ documents, Forall₂ RelationshipDeclaration.WrittenAs relationships documents
  | [] => ⟨[], .nil⟩
  | relationship :: rest => by
    obtain ⟨document, first⟩ := relationship.exists_writtenAs
    obtain ⟨documents, behind⟩ := exists_relationships_writtenAs rest
    exact ⟨document :: documents, .cons first behind⟩
end

theorem MatrixFile.exists_writtenAs (file : MatrixFile) : ∃ document, file.WrittenAs document := by
  obtain ⟨documents, hwritten⟩ := exists_axes_writtenAs file.axes
  exact ⟨_, .mapping hwritten⟩

/-! ### Single parts -/

/-- What stands at a position of a list is written at the same position. -/
theorem exists_getElem?_of_forall₂ {α β : Type} {R : α → β → Prop} {as : List α} {bs : List β}
    {a : α} {i : Nat} (h : Forall₂ R as bs) (hi : as[i]? = some a) :
    ∃ b, bs[i]? = some b ∧ R a b := by
  induction h generalizing i with
  | nil => simp at hi
  | cons first behind ih =>
    cases i with
    | zero =>
      cases hi
      exact ⟨_, rfl, first⟩
    | succ i => simpa using ih (by simpa using hi)

/-- A list that has items is there. -/
theorem ListField.eq_given {name : String} {documents : List Document}
    {part : List (String × Document)} (h : ListField name documents part) (hne : documents ≠ []) :
    part = [(name, .sequence documents)] := by
  cases h with
  | given => rfl
  | leftOut => exact absurd rfl hne

/-! ## The mappings of a written file -/

mutual
/-- The fields of the mapping at a position of an axis, if a record is written there. -/
def AxisDeclaration.fieldsAt (axis : AxisDeclaration) : List Step → Option (List String)
  | [] => some ["key_path", "values", "values_from", "relationships"]
  | .entry "relationships" :: .element i :: rest =>
    match axis.relationships[i]? with
    | some relationship => relationship.fieldsAt rest
    | none => none
  | _ => none

def RelationshipDeclaration.fieldsAt (relationship : RelationshipDeclaration) :
    List Step → Option (List String)
  | [] => some ["parent_value", "assign", "child_permutations"]
  | [.entry "assign"] => relationship.assignment.map fun _ => ["key_path", "value"]
  | .entry "child_permutations" :: .element i :: rest =>
    match relationship.children[i]? with
    | some axis => axis.fieldsAt rest
    | none => none
  | _ => none
end

def MatrixFile.fieldsAt (file : MatrixFile) : List Step → Option (List String)
  | [] => some ["permutations"]
  | .entry "permutations" :: .element i :: rest =>
    match file.axes[i]? with
    | some axis => axis.fieldsAt rest
    | none => none
  | _ => none

/-! ## Fields of a mapping in the order of their keys -/

section Fields

variable {name : String} {path parent : Document} {values source assignment : Option Document}
  {documents : List Document} {listed taken tied assigned nested : List (String × Document)}

theorem ofPairs_file : Document.ofPairs [("permutations", .sequence documents)]
    = .mapping [("permutations", .sequence documents)] := rfl

/-- In the order of the keys the relationships of an axis stand before its candidates. -/
theorem ofPairs_axis (hvalues : OptionalField "values" values listed)
    (hsource : OptionalField "values_from" source taken)
    (hrelationships : ListField "relationships" documents tied) :
    Document.ofPairs ([("key_path", path)] ++ listed ++ taken ++ tied)
      = .mapping (("key_path", path) :: (tied ++ (listed ++ taken))) := by
  cases hvalues <;> cases hsource <;> cases hrelationships <;>
    simp +decide only [Document.ofPairs, Entries.ofPairs, Entries.insert, List.cons_append,
      List.nil_append, List.foldl_cons, List.foldl_nil, if_true, if_false]

/-- In the order of the keys the parent value of a relationship comes last. -/
theorem ofPairs_relationship (hassignment : OptionalField "assign" assignment assigned)
    (hchildren : ListField "child_permutations" documents nested) :
    Document.ofPairs ([("parent_value", parent)] ++ assigned ++ nested)
      = .mapping (assigned ++ (nested ++ [("parent_value", parent)])) := by
  cases hassignment <;> cases hchildren <;>
    simp +decide only [Document.ofPairs, Entries.ofPairs, Entries.insert, List.cons_append,
      List.nil_append, List.foldl_cons, List.foldl_nil, if_true, if_false]

theorem lookup?_parent (hassignment : OptionalField "assign" assignment assigned)
    (hchildren : ListField "child_permutations" documents nested) :
    Entries.lookup? "parent_value" (assigned ++ (nested ++ [("parent_value", parent)]))
      = some parent := by
  cases hassignment <;> cases hchildren <;> rfl

theorem lookup?_children (hassignment : OptionalField "assign" assignment assigned) :
    Entries.lookup? "child_permutations"
        (assigned ++ ([("child_permutations", .sequence documents)] ++ [("parent_value", parent)]))
      = some (.sequence documents) := by
  cases hassignment <;> rfl

end Fields

end Variation
