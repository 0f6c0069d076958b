import Variation.Proofs.Document.Leaves

/-!
# Overwriting all leaves

The paths of the leaves are listed before the first of them is overwritten, and the document changes
with every write. Where the paths lead straight to their nodes and lie apart from each other that
does not matter: none of the writes takes the way from a later one, so all of them go through and
each stores at its own position (`writeAll_eq_fill`).

`marked` is what comes out, as one map over the document: a marker in place of every scalar below
the root, whatever the marker is, and the keys and lengths of the containers as they were.
-/

namespace Variation.Document

mutual
/-- A node with a marker in place of every scalar in it, be it the node itself. -/
def markAll (marker : Document) : Document → Document
  | .sequence items => .sequence (markItems marker items)
  | .mapping entries => .mapping (markValues marker entries)
  | _ => marker

def markItems (marker : Document) : List Document → List Document
  | [] => []
  | item :: rest => markAll marker item :: markItems marker rest

def markValues (marker : Document) : List (String × Document) → List (String × Document)
  | [] => []
  | (name, value) :: rest => (name, markAll marker value) :: markValues marker rest
end

/-- A document with a marker in place of every scalar below the root. -/
def marked (document marker : Document) : Document :=
  if document.Scalar then document else markAll marker document

section Mark

variable {marker node : Document}

theorem markAll_of_scalar (h : node.Scalar) : markAll marker node = marker := by
  cases node with
  | sequence items => exact absurd h (not_scalar_sequence items)
  | mapping entries => exact absurd h (not_scalar_mapping entries)
  | _ => rfl

theorem markItems_eq_map (items : List Document) :
    markItems marker items = items.map (markAll marker) := by
  induction items with
  | nil => rfl
  | cons item rest ih => rw [markItems, ih, List.map_cons]

theorem markValues_eq_map (entries : Entries Document) :
    markValues marker entries = entries.map fun entry => (entry.1, markAll marker entry.2) := by
  induction entries with
  | nil => rfl
  | cons entry rest ih => rw [markValues, ih, List.map_cons]

end Mark

/-! ## Writes that lie apart -/

/-- **Writes that lie apart** all go through, one after the other, and each of them stores its value
at its own position. -/
theorem writeAll_eq_fill {value document : Document} {paths : List KeyPath}
    (hapart : paths.Pairwise fun path later => Apart path.position later.position)
    (hstraight : ∀ path ∈ paths, ∃ there, Straight path.segments document there) :
    writeAll value paths document = ⟨fill value (paths.map KeyPath.position) document, none⟩ := by
  induction paths generalizing document with
  | nil => rfl
  | cons path rest ih =>
    obtain ⟨hpath, hrest⟩ := List.pairwise_cons.mp hapart
    obtain ⟨there, hthere⟩ := hstraight path List.mem_cons_self
    simp only [writeAll, hthere.replace_eq, List.map_cons, fill_cons]
    refine ih hrest fun later member => ?_
    obtain ⟨node, hnode⟩ := hstraight later (List.mem_cons_of_mem _ member)
    exact ⟨node, hnode.setAt_of_apart (hpath later member) value⟩

/-! ## The positions of the leaves -/

/-- The positions of the scalars in a node, in the order of the leaves. -/
def leafPositions (node : Document) : List (List Step) :=
  node.leaves.map (·.map Segment.step)

theorem leafPositions_sequence {items : List Document} (hlength : items.length ≤ 2 ^ 64) :
    leafPositions (.sequence items) = items.zipIdx.flatMap fun item =>
      item.1.leafPositions.map (.element item.2 :: ·) := by
  rw [leafPositions, leaves_sequence, List.map_flatMap]
  refine List.flatMap_congr fun item member => ?_
  rw [leafPositions, List.map_map, List.map_map]
  refine List.map_congr_left fun segments _ => ?_
  show (Segment.index _).step :: _ = _
  rw [Segment.step, toNat_of_mem_zipIdx hlength member]
  rfl

theorem leafPositions_mapping (entries : Entries Document) :
    leafPositions (.mapping entries) = entries.flatMap fun entry =>
      entry.2.leafPositions.map (.entry entry.1 :: ·) := by
  rw [leafPositions, leaves_mapping, List.map_flatMap]
  refine List.flatMap_congr fun entry _ => ?_
  rw [leafPositions, List.map_map, List.map_map]
  rfl

section Fill

variable {marker : Document}

/-- The elements in front have been marked already. -/
theorem fill_items (front items : List Document)
    (h : ∀ item ∈ items, fill marker item.leafPositions item = markAll marker item) :
    fill marker ((items.zipIdx front.length).flatMap fun item =>
        item.1.leafPositions.map (.element item.2 :: ·)) (.sequence (front ++ items))
      = .sequence (front ++ items.map (markAll marker)) := by
  induction items generalizing front with
  | nil => rfl
  | cons item rest ih =>
    have hat : (front ++ item :: rest)[front.length]? = some item := by simp
    have hrest := ih (front ++ [markAll marker item])
      fun other member => h other (List.mem_cons_of_mem _ member)
    rw [List.zipIdx_cons, List.flatMap_cons, fill_append, fill_elements hat,
      h item List.mem_cons_self]
    simpa using hrest

theorem ascending_of_keys {entries after : Entries Document}
    (hkeys : after.map Prod.fst = entries.map Prod.fst) (h : Entries.Ascending entries) :
    Entries.Ascending after := by
  have hentries : (entries.map Prod.fst).Pairwise (· < ·) := List.pairwise_map.mpr h
  rw [← hkeys] at hentries
  exact List.pairwise_map.mp hentries

/-- The values in front have been marked already. -/
theorem fill_values (front entries : Entries Document)
    (hascending : Entries.Ascending (front ++ entries))
    (h : ∀ entry ∈ entries, fill marker entry.2.leafPositions entry.2 = markAll marker entry.2) :
    fill marker (entries.flatMap fun entry => entry.2.leafPositions.map (.entry entry.1 :: ·))
        (.mapping (front ++ entries))
      = .mapping (front ++ entries.map fun entry => (entry.1, markAll marker entry.2)) := by
  induction entries generalizing front with
  | nil => rfl
  | cons entry rest ih =>
    obtain ⟨name, value⟩ := entry
    have found : Entries.lookup? name (front ++ (name, value) :: rest) = some value :=
      Entries.lookup?_of_mem hascending (List.mem_append_right _ List.mem_cons_self)
    have hfront : ∀ entry ∈ front, entry.1 < name := fun entry member =>
      (List.pairwise_append.mp hascending).2.2 entry member (name, value) List.mem_cons_self
    have hinsert : Entries.insert name (markAll marker value) (front ++ (name, value) :: rest)
        = front ++ (name, markAll marker value) :: rest := by
      rw [Entries.insert_append_of_forall_lt _ hfront, Entries.insert, if_pos rfl]
    have hrest := ih (front ++ [(name, markAll marker value)])
      (ascending_of_keys (by simp) hascending)
      fun other member => h other (List.mem_cons_of_mem _ member)
    rw [List.flatMap_cons, fill_append, fill_entries found, h (name, value) List.mem_cons_self,
      hinsert]
    simpa using hrest

/-- A node whose scalars are all overwritten is the node with the marker in their place. -/
theorem fill_leafPositions {node : Document} (hordered : node.Ordered) (hindexed : node.Indexed) :
    fill marker node.leafPositions node = markAll marker node := by
  induction node using Document.induction with
  | scalar node hscalar =>
    rw [leafPositions, leaves_of_scalar hscalar, markAll_of_scalar hscalar]
    rfl
  | sequence items ih =>
    obtain ⟨hlength, hitems⟩ := indexed_sequence.mp hindexed
    have hfill := fill_items [] items fun item member =>
      ih item member (ordered_sequence.mp hordered item member) (hitems item member)
    rw [leafPositions_sequence hlength, markAll, markItems_eq_map]
    exact hfill
  | mapping entries ih =>
    obtain ⟨hascending, hentries⟩ := ordered_mapping.mp hordered
    have hfill := fill_values [] entries hascending fun entry member =>
      ih entry member (hentries entry member) (indexed_mapping.mp hindexed entry member)
    rw [leafPositions_mapping, markAll, markValues_eq_map]
    exact hfill

end Fill

/-! ## The main result -/

theorem position_leafPaths {document : Document} (hordered : document.Ordered)
    (hindexed : document.Indexed) (hroot : ¬ document.Scalar) :
    document.leafPaths.map KeyPath.position = document.leafPositions := by
  rw [leafPaths, leafPositions, List.map_filterMap, ← List.filterMap_eq_map]
  refine List.filterMap_congr fun segments member => ?_
  cases segments with
  | nil =>
    -- No segments lead from the root to a scalar, unless the root is one.
    obtain ⟨leaf, hleaf, hstraight⟩ := straight_of_mem_leaves hordered hindexed member
    cases hstraight
    exact absurd hleaf hroot
  | cons first rest => rfl

theorem fill_leafPaths {document marker : Document} (hordered : document.Ordered)
    (hindexed : document.Indexed) :
    fill marker (document.leafPaths.map KeyPath.position) document = document.marked marker := by
  by_cases hroot : document.Scalar
  · have hnone : document.leafPaths = [] := by
      show document.leaves.filterMap KeyPath.ofSegments? = []
      rw [leaves_of_scalar hroot]
      rfl
    rw [marked, if_pos hroot, hnone]
    rfl
  · rw [marked, if_neg hroot, position_leafPaths hordered hindexed hroot,
      fill_leafPositions hordered hindexed]

theorem apart_leafPaths {document : Document} (hordered : document.Ordered)
    (hindexed : document.Indexed) :
    document.leafPaths.Pairwise fun path later => Apart path.position later.position :=
  (pairwise_leafPaths hordered hindexed).imp fun h => h.diverge.apart

theorem straight_leafPaths {document : Document} (hordered : document.Ordered)
    (hindexed : document.Indexed) :
    ∀ path ∈ document.leafPaths, ∃ there, Straight path.segments document there := by
  intro path member
  obtain ⟨leaf, -, hstraight⟩ :=
    straight_of_mem_leaves hordered hindexed (mem_leafPaths_iff.mp member)
  exact ⟨leaf, hstraight⟩

/-- **Overwriting all leaves** goes through and gives the document with the marker in place of every
scalar below the root. The marker is at the position of every leaf, and all that is not at or below
one of them is as it was. -/
theorem poison_marks_leaves (document marker : Document) (hordered : document.Ordered)
    (hindexed : document.Indexed) :
    document.poison marker = ⟨document.marked marker, none⟩ ∧
      Sets marker (document.leafPaths.map KeyPath.position) document
        (document.marked marker) := by
  have hapart := apart_leafPaths hordered hindexed
  have hstraight := straight_leafPaths hordered hindexed
  have hfill : document.marked marker
      = fill marker (document.leafPaths.map KeyPath.position) document :=
    (fill_leafPaths hordered hindexed).symm
  refine ⟨?_, hfill, ?_, fun position hnone => ?_⟩
  · rw [poison, writeAll_eq_fill hapart hstraight, hfill]
  · rw [hfill]
    refine at?_fill_of_mem (List.pairwise_map.mpr hapart) fun position member => ?_
    obtain ⟨path, hpath, rfl⟩ := List.mem_map.mp member
    obtain ⟨there, hthere⟩ := hstraight path hpath
    rw [KeyPath.position, hthere.slot?_eq]
    rfl
  · rw [hfill]
    exact outline_at?_fill hnone document

/-- The marker is a mapping with a scalar in it, which no later write comes to. A container without
anything in it is kept, and so is a scalar that is the whole document. -/
theorem poison_marks_leaves_pools :
    let one : Document := .whole (.ofWord 1)
    let marker : Document := .mapping [("b", .sequence [one])]
    let pools (first second third : Document) : Document := .mapping
      [("a", .mapping [("b", first)]),
        ("c", .sequence [second, .sequence [], .mapping [("d", third)]]), ("e", .mapping [])]
    (pools one (.boolean true) .null).Ordered ∧ (pools one (.boolean true) .null).Indexed ∧
      (pools one (.boolean true) .null).poison marker = ⟨pools marker marker marker, none⟩ ∧
      (pools marker marker marker).at? [.entry "c", .element 0] = some marker ∧
      one.poison marker = ⟨one, none⟩ := by
  intro one marker pools
  have hordered : (pools one (.boolean true) .null).Ordered := by decide
  have hindexed : (pools one (.boolean true) .null).Indexed := by decide
  have hmarked : (pools one (.boolean true) .null).marked marker = pools marker marker marker := by
    rfl
  obtain ⟨hpoison, hsets⟩ := poison_marks_leaves _ marker hordered hindexed
  obtain ⟨hone, -⟩ := poison_marks_leaves one marker (by decide) (by decide)
  rw [hmarked] at hpoison hsets
  refine ⟨hordered, hindexed, hpoison, ?_, hone⟩
  refine hsets.stored _ (List.mem_map.mpr ⟨⟨.key "c", [.index 0]⟩, ?_, rfl⟩)
  have hpaths : (pools one (.boolean true) .null).leafPaths
      = [⟨.key "a", [.key "b"]⟩, ⟨.key "c", [.index 0]⟩, ⟨.key "c", [.index 2, .key "d"]⟩] := by rfl
  rw [hpaths]
  exact List.mem_cons_of_mem _ List.mem_cons_self

end Variation.Document
