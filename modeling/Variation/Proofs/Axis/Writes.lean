import Mathlib
import Variation.Proofs.Axis.Expansion
import Variation.Proofs.Document.Frame

/-!
# Where an expansion writes

`pathsIn` lists the places that axes write to, those of nested axes and of assignments included. A
selection writes nowhere else (`Selects.path_mem`), so the laws about one write become laws about
documents: what is read at a path that diverges from all of them is what the base document gives
(`permute_keeps_divergent`), and what a branch has written is read back from its document as long
as the writes behind it diverge (`permute_keeps_writes`).
-/

namespace Variation

open Pending (ofAxes ofRelationships)

/-! ## The places of the writes -/

mutual
/-- The places that an axis writes to, at any depth of its relationships. -/
def Axis.paths : Axis → List KeyPath
  | ⟨path, _, relationships⟩ => path :: pathsBelow relationships

def pathsIn : List Axis → List KeyPath
  | [] => []
  | axis :: rest => axis.paths ++ pathsIn rest

def pathsBelow : List Relationship → List KeyPath
  | [] => []
  | ⟨_, assignment, children⟩ :: rest =>
    (assignment.toList.map (·.path) ++ pathsIn children) ++ pathsBelow rest
end

def Pending.paths : Pending → List KeyPath
  | .axis first => first.paths
  | .relationship ⟨_, assignment, children⟩ _ =>
    assignment.toList.map (·.path) ++ pathsIn children

theorem flatMap_paths_ofAxes (axes : List Axis) :
    (ofAxes axes).flatMap Pending.paths = pathsIn axes := by
  induction axes with
  | nil => rfl
  | cons axis rest ih =>
    rw [pathsIn, ← ih]
    rfl

theorem flatMap_paths_ofRelationships (relationships : List Relationship) (chosen : Document) :
    (ofRelationships relationships chosen).flatMap Pending.paths = pathsBelow relationships := by
  induction relationships with
  | nil => rfl
  | cons relationship rest ih =>
    obtain ⟨parent, assignment, children⟩ := relationship
    rw [pathsBelow, ← ih]
    rfl

/-- A selection writes only to places of what it goes through. -/
theorem Selects.path_mem {todo left : List Pending} {choices : List Nat}
    {writes : List Assignment} (h : Selects todo choices writes left) :
    ∀ write ∈ writes, write.path ∈ todo.flatMap Pending.paths := by
  induction h with
  | stop => simp
  | @choose path candidates relationships chosen position todo left choices writes _ _ ih =>
    rw [List.flatMap_append, flatMap_paths_ofRelationships] at ih
    rw [List.flatMap_cons, Pending.paths, Axis.paths]
    intro write member
    rcases List.mem_cons.mp member with rfl | member
    · exact List.mem_cons_self
    · exact List.mem_cons_of_mem path (ih write member)
  | @follow relationship chosen todo left choices writes _ _ ih =>
    obtain ⟨parent, assignment, children⟩ := relationship
    rw [List.flatMap_append, flatMap_paths_ofAxes] at ih
    rw [List.flatMap_cons, Pending.paths, List.append_assoc]
    intro write member
    rcases List.mem_append.mp member with member | member
    · exact List.mem_append_left _ (List.mem_map_of_mem member)
    · exact List.mem_append_right _ (ih write member)
  | pass _ _ ih =>
    intro write member
    rw [List.flatMap_cons]
    exact List.mem_append_right _ (ih write member)

theorem Selection.Complete.path_mem {axes : List Axis} {selection : Selection}
    (h : selection.Complete axes) : ∀ write ∈ selection.writes, write.path ∈ pathsIn axes := by
  intro write member
  rw [← flatMap_paths_ofAxes]
  exact Selects.path_mem h write member

/-! ## Writes in turn, seen by a reader -/

namespace Document

theorem assignedAll_cons_eq_ok {document after : Document} {write : Assignment}
    {rest : List Assignment} : document.assignedAll (write :: rest) = .ok after ↔
      ∃ middle, (document.replace write.path write.value).done = .ok middle ∧
        middle.assignedAll rest = .ok after := by
  rw [assignedAll, bind_eq_ok]

theorem assignedAll_append_eq_ok {document after : Document} {front back : List Assignment} :
    document.assignedAll (front ++ back) = .ok after ↔
      ∃ middle, document.assignedAll front = .ok middle ∧ middle.assignedAll back = .ok after := by
  rw [assignedAll_append, bind_eq_ok]

theorem get_of_assignedAll {document after : Document} {path : KeyPath}
    {writes : List Assignment} (apart : ∀ write ∈ writes, path.Diverges write.path)
    (h : document.assignedAll writes = .ok after) : after.get path = document.get path := by
  induction writes generalizing document with
  | nil =>
    cases h
    rfl
  | cons write rest ih =>
    obtain ⟨middle, hwrite, hrest⟩ := assignedAll_cons_eq_ok.mp h
    have hfirst : middle.get path = document.get path :=
      get_of_diverges (apart write List.mem_cons_self) hwrite
    rw [ih (fun next member => apart next (List.mem_cons_of_mem write member)) hrest, hfirst]

theorem assignedAll_pair_comm {document after : Document} {first second : Assignment}
    {rest : List Assignment} (apart : first.path.Diverges second.path)
    (h : document.assignedAll (first :: second :: rest) = .ok after) :
    document.assignedAll (second :: first :: rest) = .ok after := by
  obtain ⟨middle, hfirst, h⟩ := assignedAll_cons_eq_ok.mp h
  obtain ⟨last, hsecond, hrest⟩ := assignedAll_cons_eq_ok.mp h
  obtain ⟨middle', hsecond', hfirst'⟩ :=
    Puts.comm apart (replace_eq_ok.mp hfirst) (replace_eq_ok.mp hsecond)
  refine assignedAll_cons_eq_ok.mpr ⟨middle', replace_eq_ok.mpr hsecond', ?_⟩
  exact assignedAll_cons_eq_ok.mpr ⟨last, replace_eq_ok.mpr hfirst', hrest⟩

theorem assignedAll_cons_comm {document after : Document} {write : Assignment}
    {front back : List Assignment} (apart : ∀ next ∈ front, write.path.Diverges next.path)
    (h : document.assignedAll (write :: front ++ back) = .ok after) :
    document.assignedAll (front ++ write :: back) = .ok after := by
  induction front generalizing document with
  | nil => exact h
  | cons next rest ih =>
    have hswap := assignedAll_pair_comm (apart next List.mem_cons_self) h
    obtain ⟨middle, hnext, hrest⟩ := assignedAll_cons_eq_ok.mp hswap
    refine assignedAll_cons_eq_ok.mpr ⟨middle, hnext, ih ?_ hrest⟩
    exact fun other member => apart other (List.mem_cons_of_mem next member)

/-- Two blocks of writes change places if every write of the one diverges from every write of the
other; within a block the order stays. -/
theorem assignedAll_comm {document after : Document} {front back : List Assignment}
    (apart : ∀ write ∈ front, ∀ next ∈ back, write.path.Diverges next.path)
    (h : document.assignedAll (front ++ back) = .ok after) :
    document.assignedAll (back ++ front) = .ok after := by
  induction front generalizing document with
  | nil => rwa [List.append_nil]
  | cons write rest ih =>
    obtain ⟨middle, hwrite, hrest⟩ := assignedAll_cons_eq_ok.mp h
    have hmoved := ih (fun other member => apart other (List.mem_cons_of_mem write member)) hrest
    refine assignedAll_cons_comm (apart write List.mem_cons_self) ?_
    exact assignedAll_cons_eq_ok.mpr ⟨middle, hwrite, hmoved⟩

/-- What writes have left is read back, as long as the writes behind diverge from it. -/
def Stands (base : Document) (writes : List Assignment) (document : Document) : Prop :=
  ∀ earlier write later, writes = earlier ++ write :: later →
    (∀ next ∈ later, write.path.Diverges next.path) →
      ∃ before, base.assignedAll earlier = .ok before ∧
        before.ReadsBack write.path write.value document

theorem stands_of_assignedAll {base document : Document} {writes : List Assignment}
    (h : base.assignedAll writes = .ok document) : base.Stands writes document := by
  rintro earlier write later rfl apart
  obtain ⟨before, hearlier, h⟩ := assignedAll_append_eq_ok.mp h
  obtain ⟨middle, hwrite, hlater⟩ := assignedAll_cons_eq_ok.mp h
  refine ⟨before, hearlier, ?_⟩
  rw [ReadsBack, get_of_assignedAll apart hlater]
  exact readsBack_of_replace hwrite

end Document

/-! ## The writes of the complete selections -/

/-- The writes of each complete selection, in the order of the selections. -/
def writeLists (todo : List Pending) : List (List Assignment) :=
  (selections todo).map (·.writes)

theorem writeLists_axis (path : KeyPath) (candidates : List Document)
    (relationships : List Relationship) (todo : List Pending) :
    writeLists (.axis ⟨path, candidates, relationships⟩ :: todo)
      = candidates.flatMap fun chosen =>
          (writeLists (ofRelationships relationships chosen ++ todo)).map (⟨path, chosen⟩ :: ·) := by
  have positions := List.zipIdx_map_fst 0 candidates
  conv => rhs; rw [← positions]
  rw [writeLists, selections_axis, List.map_flatMap, List.flatMap_map]
  simp only [writeLists, List.map_map]
  rfl

theorem writeLists_relationship (parent chosen : Document) (assignment : Option Assignment)
    (children : List Axis) (todo : List Pending) :
    writeLists (.relationship ⟨parent, assignment, children⟩ chosen :: todo)
      = if parent.same chosen then
          (writeLists (ofAxes children ++ todo)).map (assignment.toList ++ ·)
        else writeLists todo := by
  rw [writeLists, selections_relationship]
  split
  · simp only [writeLists, List.map_map]
    rfl
  · rfl

/-- What stands further back writes behind what stands in front, in every combination. -/
theorem writeLists_append (front back : List Pending) :
    writeLists (front ++ back)
      = (writeLists front).flatMap fun first => (writeLists back).map (first ++ ·) := by
  induction front using Pending.induction with
  | nil => simp [writeLists, selections]
  | axis path candidates relationships todo ih =>
    rw [List.cons_append, writeLists_axis, writeLists_axis, List.flatMap_assoc]
    congr 1
    funext chosen
    rw [← List.append_assoc, ih, List.map_flatMap, List.flatMap_map]
    simp only [List.map_map]
    rfl
  | relationship parent assignment children chosen todo ihChildren ihTodo =>
    rw [List.cons_append, writeLists_relationship, writeLists_relationship]
    split
    · rw [← List.append_assoc, ihChildren, List.map_flatMap, List.flatMap_map]
      simp [List.map_map, Function.comp_def]
    · exact ihTodo

theorem mem_writeLists_iff {todo : List Pending} {writes : List Assignment} :
    writes ∈ writeLists todo ↔ ∃ choices, Selects todo choices writes [] := by
  rw [writeLists, List.mem_map]
  constructor
  · rintro ⟨selection, hs, rfl⟩
    exact ⟨selection.choices, mem_selections_iff.mp hs⟩
  · rintro ⟨choices, hs⟩
    exact ⟨⟨choices, writes⟩, mem_selections_iff.mpr hs, rfl⟩

/-! ## The documents of an expansion -/

section Documents

variable {axes : List Axis} {base : Document} {documents : List Document}

theorem map_permute (h : permute axes base = .ok documents) :
    documents.map .ok
      = (selections (ofAxes axes)).map fun selection => base.assignedAll selection.writes := by
  have nonempty : axes ≠ [] := fun hnil => by rw [hnil] at h; cases h
  exact map_expandPending ((permute_eq_ok nonempty).mp h)

theorem forall₂_permute (h : permute axes base = .ok documents) :
    List.Forall₂ (fun document selection => base.assignedAll selection.writes = .ok document)
      documents (selections (ofAxes axes)) := by
  have hforall : List.Forall₂ (· = ·) (documents.map Except.ok)
      ((selections (ofAxes axes)).map fun selection => base.assignedAll selection.writes) := by
    rw [map_permute h, List.forall₂_eq_eq_eq]
  rw [List.forall₂_map_left_iff, List.forall₂_map_right_iff] at hforall
  exact hforall.imp fun _ _ hwrites => hwrites.symm

theorem exists_selection_of_mem (h : permute axes base = .ok documents) {document : Document}
    (member : document ∈ documents) :
    ∃ selection : Selection, selection.Complete axes ∧
      base.assignedAll selection.writes = .ok document := by
  have nonempty : axes ≠ [] := fun hnil => by rw [hnil] at h; cases h
  obtain ⟨choices, writes, hs, hwrites⟩ :=
    exists_selects_of_mem ((permute_eq_ok nonempty).mp h) member
  exact ⟨⟨choices, writes⟩, hs, hwrites⟩

theorem exists_mem_of_complete (h : permute axes base = .ok documents) {selection : Selection}
    (complete : selection.Complete axes) :
    ∃ document ∈ documents, base.assignedAll selection.writes = .ok document := by
  have hmem : base.assignedAll selection.writes ∈
      (selections (ofAxes axes)).map fun selection => base.assignedAll selection.writes :=
    List.mem_map_of_mem (mem_selections_iff.mpr complete)
  rw [← map_permute h] at hmem
  obtain ⟨document, member, hwrites⟩ := List.mem_map.mp hmem
  exact ⟨document, member, hwrites.symm⟩

/-- **What diverges from every place that is written to stays.** Each document gives at such a path
what the base document gives there, a value or an error. -/
theorem permute_keeps_divergent (axes : List Axis) (base : Document) (documents : List Document)
    (h : permute axes base = .ok documents) (path : KeyPath)
    (apart : ∀ written ∈ pathsIn axes, path.Diverges written) :
    ∀ document ∈ documents, document.get path = base.get path := by
  intro document member
  obtain ⟨selection, complete, hwrites⟩ := exists_selection_of_mem h member
  exact Document.get_of_assignedAll
    (fun write hwrite => apart _ (complete.path_mem write hwrite)) hwrites

/-- What pools in nested sequences are called stays, whatever else is written into them, and so does
the error that they have no zone. -/
theorem permute_keeps_pool_names :
    let pool (name : String) : KeyPath := ⟨.key "pools", [.key name]⟩
    let axes : List Axis :=
      [⟨pool "os", [.text "linux", .text "windows"],
        [⟨.text "linux", some ⟨⟨.key "region", []⟩, .text "eu"⟩,
          [⟨pool "size", [.whole (.ofWord 1), .whole (.ofWord 2)], []⟩]⟩]⟩]
    let base : Document := .mapping [("pools", .sequence
      [.mapping [("name", .text "a"), ("os", .null)], .sequence [.mapping [("name", .text "a")]]])]
    ∃ documents, permute axes base = .ok documents ∧ documents.length = 3 ∧
      (∀ written ∈ pathsIn axes, (pool "name").Diverges written) ∧
      (∀ written ∈ pathsIn axes, (pool "zone").Diverges written) ∧
      ∀ document ∈ documents, document.get (pool "name") = .ok (.text "a") ∧
        document.get (pool "zone") = .error (.missingKey [.key "pools", .key "zone"]) := by
  intro pool axes base
  have name : ∀ written ∈ pathsIn axes, (pool "name").Diverges written := by decide
  have zone : ∀ written ∈ pathsIn axes, (pool "zone").Diverges written := by decide
  refine ⟨_, rfl, rfl, name, zone, fun document member => ⟨?_, ?_⟩⟩
  · exact permute_keeps_divergent axes base _ rfl _ name document member
  · exact permute_keeps_divergent axes base _ rfl _ zone document member

/-- **What is written is read back** from the document of the branch, a write of a candidate as well
as an assignment, if all writes behind it on the branch diverge from it. The documents are listed
with the selections that make them. -/
theorem permute_keeps_writes (axes : List Axis) (base : Document) (documents : List Document)
    (h : permute axes base = .ok documents) :
    (∃ listed : List Selection,
      listed.Pairwise (·.choices < ·.choices) ∧
      (∀ selection, selection ∈ listed ↔ Selection.Complete axes selection) ∧
      List.Forall₂ (fun document selection => base.assignedAll selection.writes = .ok document ∧
        base.Stands selection.writes document) documents listed) ∧
    (∀ choices earlier relationship chosen left assignment choices' later,
      Selects (ofAxes axes) choices earlier (.relationship relationship chosen :: left) →
      relationship.holdsFor chosen = true → relationship.assignment = some assignment →
      Selects (ofAxes relationship.children ++ left) choices' later [] →
      (∀ next ∈ later, assignment.path.Diverges next.path) →
        ∃ before, ∃ document ∈ documents, base.assignedAll earlier = .ok before ∧
          base.assignedAll (earlier ++ assignment :: later) = .ok document ∧
          before.ReadsBack assignment.path assignment.value document) := by
  constructor
  · refine ⟨selections (ofAxes axes), pairwise_selections _, fun _ => mem_selections_iff, ?_⟩
    refine (forall₂_permute h).imp fun document selection hwrites => ?_
    exact ⟨hwrites, Document.stands_of_assignedAll hwrites⟩
  · intro choices earlier relationship chosen left assignment choices' later hto holds hassignment
      hfrom apart
    have hfollow := Selects.follow relationship holds hfrom
    rw [hassignment] at hfollow
    have complete : Selection.Complete axes ⟨choices ++ choices', earlier ++ assignment :: later⟩ :=
      hto.append hfollow
    obtain ⟨document, member, hwrites⟩ := exists_mem_of_complete h complete
    obtain ⟨before, hearlier, hback⟩ :=
      Document.stands_of_assignedAll hwrites earlier assignment later rfl apart
    exact ⟨before, document, member, hearlier, hwrites, hback⟩

/-- A region that is pinned once an operating system has been chosen stays pinned behind the choice
of a zone, and pools that there are none of are not read back. -/
theorem permute_keeps_pinned_region :
    let os : KeyPath := ⟨.key "pools", [.key "os"]⟩
    let region : Assignment := ⟨⟨.key "region", []⟩, .text "eu"⟩
    let zone : KeyPath := ⟨.key "zone", []⟩
    let linux : Relationship := ⟨.text "linux", some region, [⟨zone, [.text "x", .text "y"], []⟩]⟩
    let axes : List Axis := [⟨os, [.text "linux", .text "windows"], [linux]⟩]
    let base : Document := .mapping [("pools", .sequence []), ("region", .null)]
    ∃ documents, permute axes base = .ok documents ∧ documents.length = 3 ∧
      Selects (ofAxes axes) [0] [⟨os, .text "linux"⟩] [.relationship linux (.text "linux")] ∧
      linux.holdsFor (.text "linux") = true ∧
      Selects (ofAxes linux.children ++ []) [1] [⟨zone, .text "y"⟩] [] ∧
      region.path.Diverges zone ∧
      ∃ document ∈ documents, document.get region.path = .ok region.value ∧
        ∃ place, document.get os = .error (.emptySequence place) := by
  intro os region zone linux axes base
  have chosen : Selects (ofAxes axes) [0] [⟨os, .text "linux"⟩]
      [.relationship linux (.text "linux")] := .choose rfl .stop
  have behind : Selects (ofAxes linux.children ++ []) [1] [⟨zone, .text "y"⟩] [] :=
    .choose rfl .stop
  have apart : region.path.Diverges zone := by decide
  obtain ⟨_, pinned⟩ := permute_keeps_writes axes base _ rfl
  obtain ⟨before, document, member, hbefore, hdocument, hback⟩ :=
    pinned [0] _ linux (.text "linux") [] region [1] _ chosen rfl rfl behind (by simpa using apart)
  refine ⟨_, rfl, rfl, chosen, rfl, behind, apart, document, member, ?_, ?_⟩
  · rcases hback with ⟨hread, _⟩ | ⟨_, met⟩
    · exact hread
    · have hbase : before = base := Except.ok.inj (hbefore.symm.trans (rfl : _ = Except.ok base))
      rw [hbase] at met
      obtain ⟨_, _, met⟩ := Document.meetsEmpty_mapping.mp met
      exact absurd met Document.not_meetsEmpty_nil
  · have hmade : document
        = .mapping [("pools", .sequence []), ("region", .text "eu"), ("zone", .text "y")] :=
      Except.ok.inj (hdocument.symm.trans rfl)
    rw [hmade]
    exact ⟨_, rfl⟩

end Documents

end Variation
