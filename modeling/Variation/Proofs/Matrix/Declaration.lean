import Variation.Proofs.Document.Depth
import Variation.Proofs.Matrix.Written

/-!
# Reading matrix files

However a matrix file is written, it is read back (`axisWithin_of_writtenAs` is the induction through
the forms, which go down as deep as the document does), and a key that is not declared is an error
wherever it is put (`axisWithin_refused` follows the position down to the mapping).
-/

namespace Variation

open List (Forall₂)

/-! ## Reading what was written -/

namespace Codec

section Fields

variable {α β : Type} {form : RecordForm α} {name : String} {record : α}
  {part rest : List (String × Document)}

/-- A field that may be without a value is stored, unless it is left out and blank anyway. -/
theorem storeEntries_optional {inner : Document → Except Mismatch β} {set : Option β → α → α}
    {encode : β → Document} {value : Option β}
    (hfield : form.fields.find? (·.name == name)
      = some (.of name false (decodeOptional inner) set))
    (hpart : OptionalField name (value.map encode) part)
    (hinner : ∀ b, value = some b → encode b ≠ .null ∧ inner (encode b) = .ok b)
    (hblank : set none record = record) :
    form.storeEntries (part ++ rest) record = form.storeEntries rest (set value record) := by
  cases value with
  | none =>
    cases hpart with
    | null => exact storeEntries_field hfield rfl
    | leftOut => rw [List.nil_append, hblank]
  | some b =>
    obtain ⟨hnull, hread⟩ := hinner b rfl
    cases hpart with
    | given =>
      refine storeEntries_field hfield ?_
      rw [decodeOptional_of_ne_null hnull, hread]
      rfl

/-- A field that holds a list is stored, unless it is left out and the list is empty. -/
theorem storeEntries_list {inner : Document → Except Mismatch β} {set : List β → α → α}
    {documents : List Document} {values : List β}
    (hfield : form.fields.find? (·.name == name) = some (.of name false (decodeList inner) set))
    (hpart : ListField name documents part) (hinner : each inner documents = .ok values)
    (hblank : set [] record = record) :
    form.storeEntries (part ++ rest) record = form.storeEntries rest (set values record) := by
  cases hpart with
  | given => exact storeEntries_field hfield hinner
  | leftOut =>
    cases hinner
    rw [List.nil_append, hblank]

end Fields

theorem document_decode (d : Document) : document.decode d = .ok d := rfl

theorem documents_decode (items : List Document) :
    decodeList document.decode (.sequence items) = .ok items := by
  have heach : each document.decode (items.map id) = .ok (items.map id) :=
    each_map fun d _ => document_decode d
  rw [List.map_id] at heach
  exact heach

theorem assignmentForm_decode (assignment : Assignment) :
    assignmentForm.decode assignment.document = .ok assignment := by
  have hentries : assignment.document
      = .mapping [("key_path", assignment.path.document), ("value", assignment.value)] := by
    simp +decide only [Assignment.document, Document.ofPairs, Entries.ofPairs, Entries.insert,
      List.foldl_cons, List.foldl_nil, if_false]
  have hstore : assignmentForm.storeEntries
      [("key_path", assignment.path.document), ("value", assignment.value)] assignmentForm.blank
        = .ok assignment := by
    rw [storeEntries_field rfl (keyPath_decode assignment.path),
      storeEntries_field rfl (document_decode assignment.value)]
    rfl
  simp only [hentries, RecordForm.decode, hstore]
  rfl

theorem relationshipForm_decode {axis : Document → Except Mismatch AxisDeclaration}
    {parent : Document} {assignment : Option Assignment} {children : List AxisDeclaration}
    {documents : List Document} {assigned nested : List (String × Document)}
    (hassignment : OptionalField "assign" (assignment.map Assignment.document) assigned)
    (hchildren : ListField "child_permutations" documents nested)
    (hread : each axis documents = .ok children) :
    (relationshipForm axis).decode (.mapping (assigned ++ (nested ++ [("parent_value", parent)])))
      = .ok ⟨parent, assignment, children⟩ := by
  have hassigned : ∀ a, assignment = some a → a.document ≠ .null ∧
      assignmentForm.decode a.document = .ok a :=
    fun a _ => ⟨nofun, assignmentForm_decode a⟩
  have hstore : (relationshipForm axis).storeEntries
      (assigned ++ (nested ++ [("parent_value", parent)])) (relationshipForm axis).blank
        = .ok ⟨parent, assignment, children⟩ := by
    rw [storeEntries_optional rfl hassignment hassigned rfl,
      storeEntries_list rfl hchildren hread rfl, storeEntries_field rfl (document_decode parent)]
    rfl
  have hmissing : (relationshipForm axis).missing?
      (assigned ++ (nested ++ [("parent_value", parent)])) = none := by
    simp [RecordForm.missing?, relationshipForm, Field.of, lookup?_parent hassignment hchildren]
  simp only [RecordForm.decode, hstore, hmissing]

theorem axisForm_decode {relationship : Document → Except Mismatch RelationshipDeclaration}
    {path : KeyPath} {values : Option (List Document)} {source : Option KeyPath}
    {relationships : List RelationshipDeclaration} {documents : List Document}
    {listed taken tied : List (String × Document)}
    (hvalues : OptionalField "values" (values.map .sequence) listed)
    (hsource : OptionalField "values_from" (source.map KeyPath.document) taken)
    (hrelationships : ListField "relationships" documents tied)
    (hread : each relationship documents = .ok relationships) :
    (axisForm relationship).decode
        (.mapping (("key_path", path.document) :: (tied ++ (listed ++ taken))))
      = .ok ⟨path, values, source, relationships⟩ := by
  have hlisted : ∀ items, values = some items → Document.sequence items ≠ .null ∧
      decodeList document.decode (.sequence items) = .ok items :=
    fun items _ => ⟨nofun, documents_decode items⟩
  have htaken : ∀ s, source = some s → s.document ≠ .null ∧ keyPath.decode s.document = .ok s :=
    fun s _ => ⟨nofun, keyPath_decode s⟩
  have hstore : (axisForm relationship).storeEntries
      (("key_path", path.document) :: (tied ++ (listed ++ taken))) (axisForm relationship).blank
        = .ok ⟨path, values, source, relationships⟩ := by
    rw [storeEntries_field rfl (keyPath_decode path), storeEntries_list rfl hrelationships hread rfl,
      storeEntries_optional rfl hvalues hlisted rfl, ← List.append_nil taken,
      storeEntries_optional rfl hsource htaken rfl]
    rfl
  have hmissing : (axisForm relationship).missing?
      (("key_path", path.document) :: (tied ++ (listed ++ taken))) = none := by
    simp [RecordForm.missing?, axisForm, Field.of, Entries.lookup?]
  simp only [RecordForm.decode, hstore, hmissing]

/-! ### Through the forms -/

open Document (depthOfItems depthOfEntries depthOfEntries_append depth_le_depthOfItems)

theorem depthOfItems_le {name : String} {documents : List Document}
    {part : List (String × Document)} (h : ListField name documents part) :
    depthOfItems documents ≤ depthOfEntries part := by
  cases h with
  | given => simp only [depthOfEntries, Document.depth]; omega
  | leftOut => exact Nat.le_refl _

/-- A list of what is not too deep to be read is read. -/
theorem each_within {α : Type} {R : α → Document → Prop} {read : Document → Except Mismatch α}
    {values : List α} {documents : List Document} {depth : Nat} (h : Forall₂ R values documents)
    (hdepth : depthOfItems documents ≤ depth)
    (hread : ∀ {value document}, R value document → document.depth ≤ depth →
      read document = .ok value) : each read documents = .ok values := by
  induction h with
  | nil => rfl
  | cons first behind ih =>
    rw [depthOfItems, Nat.max_le] at hdepth
    exact each_cons_ok (hread first hdepth.1) (ih hdepth.2)

/-- A relationship is read back if the axes below it are. -/
theorem relationshipForm_of_writtenAs {relationship : RelationshipDeclaration} {document : Document}
    {depth : Nat} (haxis : ∀ {axis document}, AxisDeclaration.WrittenAs axis document →
      document.depth ≤ depth → axisWithin depth document = .ok axis)
    (h : relationship.WrittenAs document) (hdepth : document.depth ≤ depth) :
    (relationshipForm (axisWithin depth)).decode document = .ok relationship := by
  cases h with
  | mapping parent hassignment hwritten hchildren =>
    rw [ofPairs_relationship hassignment hchildren] at hdepth ⊢
    have hbelow := depthOfItems_le hchildren
    simp only [Document.depth, depthOfEntries_append] at hdepth
    exact relationshipForm_decode hassignment hchildren (each_within hwritten (by omega) haxis)

/-- An axis is read back from whatever it is written as, once the forms go down far enough. -/
theorem axisWithin_of_writtenAs {axis : AxisDeclaration} {document : Document} {depth : Nat}
    (h : axis.WrittenAs document) (hdepth : document.depth ≤ depth) :
    axisWithin depth document = .ok axis := by
  -- A relationship is read by the same forms as the axis that it is in; its children are one level
  -- further down, which is where the hypothesis is used.
  induction depth generalizing axis document with
  | zero =>
    cases h
    cases hdepth
  | succ depth ih =>
    cases h with
    | mapping path hvalues hsource hwritten hrelationships =>
      rw [ofPairs_axis hvalues hsource hrelationships] at hdepth ⊢
      have hbelow := depthOfItems_le hrelationships
      simp only [Document.depth, depthOfEntries, depthOfEntries_append] at hdepth
      exact axisForm_decode hvalues hsource hrelationships
        (each_within hwritten (by omega) (relationshipForm_of_writtenAs ih))

theorem matrixFileForm_decode {axis : Document → Except Mismatch AxisDeclaration}
    {axes : List AxisDeclaration} {documents : List Document}
    (hread : each axis documents = .ok axes) :
    (matrixFileForm axis).decode (.mapping [("permutations", .sequence documents)])
      = .ok ⟨axes⟩ := by
  have hstore : (matrixFileForm axis).storeEntries [("permutations", .sequence documents)]
      (matrixFileForm axis).blank = .ok ⟨axes⟩ := by
    rw [storeEntries_field rfl hread]
    rfl
  simp only [RecordForm.decode, hstore]
  rfl

theorem matrixFileForm_of_writtenAs {file : MatrixFile} {document : Document} {depth : Nat}
    (h : file.WrittenAs document) (hdepth : document.depth ≤ depth) :
    (matrixFileForm (axisWithin depth)).decode document = .ok file := by
  cases h with
  | mapping hwritten =>
    rw [ofPairs_file] at hdepth ⊢
    simp only [Document.depth, depthOfEntries] at hdepth
    exact matrixFileForm_decode (each_within hwritten (by omega) axisWithin_of_writtenAs)

/-! ## Keys that are not declared -/

theorem strict_axisForm (relationship : Document → Except Mismatch RelationshipDeclaration) :
    Strict (axisForm relationship) :=
  ⟨rfl, by simp [axisForm]⟩

theorem strict_relationshipForm (axis : Document → Except Mismatch AxisDeclaration) :
    Strict (relationshipForm axis) :=
  ⟨rfl, by simp [relationshipForm]⟩

theorem strict_assignmentForm : Strict assignmentForm :=
  ⟨rfl, by simp [assignmentForm]⟩

theorem strict_matrixFileForm (axis : Document → Except Mismatch AxisDeclaration) :
    Strict (matrixFileForm axis) :=
  ⟨rfl, by simp [matrixFileForm]⟩

section Refused

variable {names : List String} {key : String} {value : Document}

theorem assignmentForm_refused (assignment : Assignment) (hkey : key ∉ ["key_path", "value"]) :
    assignmentForm.decode (assignment.document.setAt [.entry key] value)
      = .error (.unknownField key ["key_path", "value"]) := by
  have hread := assignmentForm_decode assignment
  rw [Assignment.document, Document.ofPairs] at hread ⊢
  exact decode_setAt_unknown strict_assignmentForm hread hkey

/-- What is put into one item of a list and refused there is refused by the record with the list. -/
theorem decode_item_refused {α β : Type} {form : RecordForm α} {record : α} {name : String}
    {required : Bool} {entries : List (String × Document)} {R : β → Document → Prop}
    {inner : Document → Except Mismatch β} {set : List β → α → α} {values : List β} {item : β}
    {documents : List Document} {depth i : Nat} {below : List Step} {reason : Mismatch}
    (hform : Strict form) (hread : form.decode (.mapping entries) = .ok record)
    (hfield : form.fields.find? (·.name == name)
      = some (.of name required (decodeList inner) set))
    (hentry : documents ≠ [] → Entries.lookup? name entries = some (.sequence documents))
    (hwritten : Forall₂ R values documents) (hdepth : depthOfItems documents ≤ depth)
    (hinner : ∀ {item document}, R item document → document.depth ≤ depth →
      inner document = .ok item)
    (hi : values[i]? = some item) (hrefused : ∀ document, R item document →
      document.depth ≤ depth → inner (document.setAt below value) = .error reason) :
    form.decode ((Document.mapping entries).setAt (.entry name :: .element i :: below) value)
      = .error reason := by
  obtain ⟨child, hchild, hchildWritten⟩ := exists_getElem?_of_forall₂ hwritten hi
  have hmem : child ∈ documents := List.mem_of_getElem? hchild
  have hbelow : child.depth ≤ depth := Nat.le_trans (depth_le_depthOfItems hmem) hdepth
  exact decode_setAt_list_refused hform hread hfield (hentry (List.ne_nil_of_mem hmem))
    (each_within hwritten hdepth hinner) hchild (hrefused child hchildWritten hbelow)

mutual
-- The recursion is on the position: each step from an axis to a relationship or back takes two of it.
/-- A key that is put into the mapping at a position of an axis is refused if no field there has
this name. -/
theorem axisWithin_refused : ∀ (position : List Step) {axis : AxisDeclaration}
    {document : Document} {depth : Nat}, axis.WrittenAs document → document.depth ≤ depth →
      axis.fieldsAt position = some names → key ∉ names →
        axisWithin depth (document.setAt (position ++ [.entry key]) value)
          = .error (.unknownField key names)
  | position, axis, document, depth, h, hdepth, hfields, hkey => by
    have hread := axisWithin_of_writtenAs h hdepth
    cases h with
    | mapping path hvalues hsource hwritten hrelationships =>
      rw [ofPairs_axis hvalues hsource hrelationships] at hdepth hread ⊢
      cases depth with
      | zero => cases hdepth
      | succ depth =>
        unfold AxisDeclaration.fieldsAt at hfields
        split at hfields
        · cases hfields
          exact decode_setAt_unknown (strict_axisForm _) hread hkey
        · next i rest =>
          split at hfields
          · next relationship hi =>
            have hbelow := depthOfItems_le hrelationships
            simp only [Document.depth, depthOfEntries, depthOfEntries_append] at hdepth
            refine decode_item_refused (strict_axisForm _) hread rfl (fun hne => ?_) hwritten
              (by omega) (relationshipForm_of_writtenAs axisWithin_of_writtenAs) hi
              fun child hchild hchildDepth =>
                relationshipForm_refused rest hchild hchildDepth hfields hkey
            obtain rfl := hrelationships.eq_given hne
            rfl
          · cases hfields
        · cases hfields

theorem relationshipForm_refused : ∀ (position : List Step) {relationship : RelationshipDeclaration}
    {document : Document} {depth : Nat}, relationship.WrittenAs document →
      document.depth ≤ depth → relationship.fieldsAt position = some names → key ∉ names →
        (relationshipForm (axisWithin depth)).decode
          (document.setAt (position ++ [.entry key]) value) = .error (.unknownField key names)
  | position, relationship, document, depth, h, hdepth, hfields, hkey => by
    have hread := relationshipForm_of_writtenAs axisWithin_of_writtenAs h hdepth
    cases h with
    | @mapping parent assignment _ _ _ _ hassignment hwritten hchildren =>
      rw [ofPairs_relationship hassignment hchildren] at hdepth hread ⊢
      unfold RelationshipDeclaration.fieldsAt at hfields
      split at hfields
      · cases hfields
        exact decode_setAt_unknown (strict_relationshipForm _) hread hkey
      · cases assignment with
        | none => cases hfields
        | some assignment =>
          cases hfields
          cases hassignment
          -- An assignment with a key too many is still a mapping, so it is not taken for an absent one.
          have hnull : assignment.document.setAt [.entry key] value ≠ .null := by
            rw [Assignment.document, Document.ofPairs, Document.setAt_insert]
            nofun
          exact decode_setAt_optional_refused (strict_relationshipForm _) hread rfl rfl hnull
            (assignmentForm_refused assignment hkey)
      · next i rest =>
        split at hfields
        · next axis hi =>
          have hbelow := depthOfItems_le hchildren
          simp only [Document.depth, depthOfEntries_append] at hdepth
          refine decode_item_refused (strict_relationshipForm _) hread rfl (fun hne => ?_) hwritten
            (by omega) axisWithin_of_writtenAs hi
            fun child hchild hchildDepth => axisWithin_refused rest hchild hchildDepth hfields hkey
          obtain rfl := hchildren.eq_given hne
          exact lookup?_children hassignment
        · cases hfields
      · cases hfields
end

theorem matrixFileForm_refused {position : List Step} {file : MatrixFile} {document : Document}
    {depth : Nat} (value : Document) (h : file.WrittenAs document) (hdepth : document.depth ≤ depth)
    (hfields : file.fieldsAt position = some names) (hkey : key ∉ names) :
    (matrixFileForm (axisWithin depth)).decode (document.setAt (position ++ [.entry key]) value)
      = .error (.unknownField key names) := by
  have hread := matrixFileForm_of_writtenAs h hdepth
  cases h with
  | mapping hwritten =>
    rw [ofPairs_file] at hdepth hread ⊢
    unfold MatrixFile.fieldsAt at hfields
    split at hfields
    · cases hfields
      exact decode_setAt_unknown (strict_matrixFileForm _) hread hkey
    · next i rest =>
      split at hfields
      · next axis hi =>
        simp only [Document.depth, depthOfEntries] at hdepth
        exact decode_item_refused (strict_matrixFileForm _) hread rfl (fun _ => rfl) hwritten
          (by omega) axisWithin_of_writtenAs hi
          fun child hchild hchildDepth => axisWithin_refused rest hchild hchildDepth hfields hkey
      · cases hfields
    · cases hfields

end Refused

end Codec

/-- **Reading a matrix file.** Every file can be written. Whichever way it is written, it is read back,
and it is an error to add, in any of its mappings, a key that is not one of the fields there. -/
theorem MatrixFile.reads_back_written (file : MatrixFile) :
    (∃ document, file.WrittenAs document) ∧
      ∀ document, file.WrittenAs document →
        MatrixFile.ofDocument document = .ok file ∧
          ∀ position names key value, file.fieldsAt position = some names → key ∉ names →
            MatrixFile.ofDocument (document.setAt (position ++ [.entry key]) value)
              = .error (.unknownField key names) := by
  refine ⟨file.exists_writtenAs, fun document h => ?_⟩
  have hread := Codec.matrixFileForm_of_writtenAs h (Nat.le_refl _)
  refine ⟨hread, fun position names key value hfields hkey => ?_⟩
  have habsent : document.at? (position ++ [.entry key]) = none := by
    -- a node that is there could be stored again, which changes nothing and yet is refused
    rw [Option.eq_none_iff_forall_ne_some]
    intro held hheld
    have hrefused := Codec.matrixFileForm_refused held h (Nat.le_refl _) hfields hkey
    rw [Document.setAt_of_at? hheld, hread] at hrefused
    cases hrefused
  exact Codec.matrixFileForm_refused value h (Document.depth_le_setAt value habsent) hfields hkey

/-- The sizes of a pool, where the large one fixes the retries and the hosts are taken from a list. One
key is misspelt in the assignment, or there is one too many for the hosts. -/
theorem MatrixFile.reads_back_written_pools :
    let path (name : String) : KeyPath := ⟨.key "pools", [.index 0, .key name]⟩
    let keys (name : String) : Document :=
      .sequence [.text "pools", .whole (.ofWord 0), .text name]
    let hosts : AxisDeclaration := ⟨path "host", none, some (path "hosts"), []⟩
    let large : RelationshipDeclaration := ⟨.text "large", some ⟨path "retries", .null⟩, [hosts]⟩
    let sizes : AxisDeclaration := ⟨path "size", some [.text "large"], none, [large]⟩
    let file : MatrixFile := ⟨[sizes]⟩
    let document : Document := .ofPairs [("permutations", .sequence [.ofPairs [
      ("key_path", keys "size"), ("values", .sequence [.text "large"]), ("values_from", .null),
      ("relationships", .sequence [.ofPairs [
        ("parent_value", .text "large"),
        ("assign", .ofPairs [("key_path", keys "retries"), ("value", .null)]),
        ("child_permutations", .sequence [.ofPairs [
          ("key_path", keys "host"), ("values_from", keys "hosts")]])]])]])]
    let relationship : List Step :=
      [.entry "permutations", .element 0, .entry "relationships", .element 0]
    MatrixFile.ofDocument document = .ok file ∧
      MatrixFile.ofDocument
          (document.setAt (relationship ++ [.entry "assign"] ++ [.entry "valeu"]) .null)
        = .error (.unknownField "valeu" ["key_path", "value"]) ∧
      MatrixFile.ofDocument (document.setAt
          (relationship ++ [.entry "child_permutations", .element 0] ++ [.entry "port"]) .null)
        = .error (.unknownField "port" ["key_path", "values", "values_from", "relationships"]) := by
  intro path keys hosts large sizes file document relationship
  have hhosts : hosts.WrittenAs _ := .mapping (path "host") .leftOut (.given _) .nil .leftOut
  have hlarge : large.WrittenAs _ :=
    .mapping (.text "large") (.given _) (.cons hhosts .nil) (.given _)
  have hsizes : sizes.WrittenAs _ :=
    .mapping (path "size") (.given _) .null (.cons hlarge .nil) (.given _)
  have hfile : file.WrittenAs document := .mapping (.cons hsizes .nil)
  obtain ⟨-, hwritten⟩ := MatrixFile.reads_back_written file
  obtain ⟨hread, hrefused⟩ := hwritten document hfile
  refine ⟨hread, ?_, ?_⟩
  · exact hrefused (relationship ++ [.entry "assign"]) _ "valeu" .null rfl (by decide)
  · exact hrefused (relationship ++ [.entry "child_permutations", .element 0]) _ "port" .null rfl
      (by decide)

end Variation
