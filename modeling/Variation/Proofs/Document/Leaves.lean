import Mathlib.Data.List.Basic
import Variation.Document.Leaves
import Variation.Proofs.Document.Direct
import Variation.Proofs.Document.Nodes

/-!
# The list of leaves

A leaf is a scalar below the root, and its path leads straight to it. `leafPaths` lists the paths of
all leaves in depth-first order (`Precedes`): of two paths the one comes first that takes the lesser
key or the lesser index where they part. That they part at two keys or at two indices says the rest:
no path is listed twice, and none leads on from another.

The traversal passes on the segments that lead to a node. They are only put in front of what the
node alone has (`leavesFrom_eq_map`), so the laws are about the leaves of a node, and go from the
nodes in a node to the node itself.
-/

namespace Variation

/-! ## Depth-first order -/

/-- Segments that agree up to a point, the first going on there with a lesser key or index. -/
inductive Precedes : List Segment → List Segment → Prop
  | keys {a b : String} {p q : List Segment} (lt : a < b) :
      Precedes (.key a :: p) (.key b :: q)
  | indices {i j : UInt64} {p q : List Segment} (lt : i < j) :
      Precedes (.index i :: p) (.index j :: q)
  | step (segment : Segment) {p q : List Segment} (behind : Precedes p q) :
      Precedes (segment :: p) (segment :: q)

theorem Precedes.diverge {p q : List Segment} (h : Precedes p q) : Diverge p q := by
  induction h with
  | keys lt => exact .keys fun heq => String.lt_irrefl _ (heq ▸ lt)
  | indices lt => exact .indices (UInt64.ne_of_lt lt)
  | step segment _ ih => exact .step segment ih

/-- A path does not lead on from one that it parts from. -/
theorem Diverge.not_prefix {p q : List Segment} (h : Diverge p q) : ¬ p <+: q := by
  induction h with
  | keys ne => exact fun hprefix => ne (by simpa using (List.cons_prefix_cons.mp hprefix).1)
  | indices ne => exact fun hprefix => ne (by simpa using (List.cons_prefix_cons.mp hprefix).1)
  | step segment _ ih => exact fun hprefix => ih (List.cons_prefix_cons.mp hprefix).2

namespace KeyPath

theorem eq_of_segments {path other : KeyPath} (h : path.segments = other.segments) :
    path = other := by
  cases path
  cases other
  cases h
  rfl

theorem eq_of_position {path other : KeyPath} (h : path.position = other.position) :
    path = other :=
  eq_of_segments ((List.map_inj_right fun _ _ => Segment.step_injective).mp h)

end KeyPath

namespace Document

/-! ## The leaves of a node -/

/-- The segments that lead from a node to each of the scalars in it; to a scalar itself lead none. -/
def leaves (node : Document) : List (List Segment) :=
  node.leavesFrom []

theorem itemLeaves_eq_flatMap (place : List Segment) (position : Nat) (items : List Document) :
    itemLeaves place position items = (items.zipIdx position).flatMap fun item =>
      item.1.leavesFrom (place ++ [.index (UInt64.ofNat item.2)]) := by
  induction items generalizing position with
  | nil => rfl
  | cons item rest ih => rw [itemLeaves, ih, List.zipIdx_cons, List.flatMap_cons]

theorem entryLeaves_eq_flatMap (place : List Segment) (entries : Entries Document) :
    entryLeaves place entries = entries.flatMap fun entry =>
      entry.2.leavesFrom (place ++ [.key entry.1]) := by
  induction entries with
  | nil => rfl
  | cons entry rest ih => rw [entryLeaves, ih, List.flatMap_cons]

theorem leavesFrom_of_scalar {node : Document} (h : node.Scalar) (place : List Segment) :
    node.leavesFrom place = [place] := by
  cases node with
  | sequence items => exact absurd h (not_scalar_sequence items)
  | mapping entries => exact absurd h (not_scalar_mapping entries)
  | _ => rfl

/-- What leads to a node stands in front of what leads on from it. -/
theorem leavesFrom_eq_map (node : Document) (place : List Segment) :
    node.leavesFrom place = node.leaves.map (place ++ ·) := by
  induction node using Document.induction generalizing place with
  | scalar node h => rw [leaves, leavesFrom_of_scalar h, leavesFrom_of_scalar h]; simp
  | sequence items ih =>
    simp only [leaves, leavesFrom, itemLeaves_eq_flatMap, List.map_flatMap, List.nil_append]
    refine List.flatMap_congr fun item member => ?_
    have hitem := ih item.1 (List.fst_mem_of_mem_zipIdx member)
    rw [hitem, hitem, List.map_map]
    simp
  | mapping entries ih =>
    simp only [leaves, leavesFrom, entryLeaves_eq_flatMap, List.map_flatMap, List.nil_append]
    refine List.flatMap_congr fun entry member => ?_
    rw [ih entry member, ih entry member, List.map_map]
    simp

theorem leaves_of_scalar {node : Document} (h : node.Scalar) : node.leaves = [[]] :=
  leavesFrom_of_scalar h []

theorem leaves_sequence (items : List Document) :
    leaves (.sequence items) = items.zipIdx.flatMap fun item =>
      item.1.leaves.map (.index (UInt64.ofNat item.2) :: ·) := by
  rw [leaves, leavesFrom, itemLeaves_eq_flatMap]
  simp only [leavesFrom_eq_map, List.nil_append, List.singleton_append]

theorem leaves_mapping (entries : Entries Document) :
    leaves (.mapping entries) = entries.flatMap fun entry =>
      entry.2.leaves.map (.key entry.1 :: ·) := by
  rw [leaves, leavesFrom, entryLeaves_eq_flatMap]
  simp only [leavesFrom_eq_map, List.nil_append, List.singleton_append]

/-! ## What leads to a scalar -/

/-- Whatever leads straight to a scalar is listed. -/
theorem mem_leaves_of_straight {segments : List Segment} {node leaf : Document}
    (h : Straight segments node leaf) (hleaf : leaf.Scalar) : segments ∈ node.leaves := by
  induction h with
  | here =>
    rw [leaves_of_scalar hleaf]
    exact List.mem_singleton_self _
  | @entry name rest entries child there found _ ih =>
    rw [leaves_mapping]
    refine List.mem_flatMap.mpr ⟨(name, child), Entries.mem_of_lookup? found, ?_⟩
    exact List.mem_map_of_mem (ih hleaf)
  | @item position rest items child there found _ ih =>
    rw [leaves_sequence]
    refine List.mem_flatMap.mpr
      ⟨(child, position.toNat), List.mk_mem_zipIdx_iff_getElem?.mpr found, ?_⟩
    rw [UInt64.ofNat_toNat]
    exact List.mem_map_of_mem (ih hleaf)

theorem toNat_of_mem_zipIdx {items : List Document} {item : Document × Nat}
    (hlength : items.length ≤ 2 ^ 64) (member : item ∈ items.zipIdx) :
    (UInt64.ofNat item.2).toNat = item.2 := by
  have hbound : item.2 < items.length := List.snd_lt_of_mem_zipIdx member
  exact UInt64.toNat_ofNat_of_lt' (Nat.lt_of_lt_of_le hbound hlength)

/-- Nothing else is listed. An entry is found at its key where the keys ascend, and an element at
its index where there are not too many of them. -/
theorem straight_of_mem_leaves {segments : List Segment} {node : Document}
    (hordered : node.Ordered) (hindexed : node.Indexed) (h : segments ∈ node.leaves) :
    ∃ leaf, leaf.Scalar ∧ Straight segments node leaf := by
  induction node using Document.induction generalizing segments with
  | scalar node hscalar =>
    rw [leaves_of_scalar hscalar] at h
    rw [List.mem_singleton.mp h]
    exact ⟨node, hscalar, .here⟩
  | sequence items ih =>
    rw [leaves_sequence] at h
    obtain ⟨item, member, h⟩ := List.mem_flatMap.mp h
    obtain ⟨rest, hrest, rfl⟩ := List.mem_map.mp h
    obtain ⟨hlength, hitems⟩ := indexed_sequence.mp hindexed
    have hitem : item.1 ∈ items := List.fst_mem_of_mem_zipIdx member
    obtain ⟨leaf, hleaf, hstraight⟩ :=
      ih item.1 hitem (ordered_sequence.mp hordered item.1 hitem) (hitems item.1 hitem) hrest
    -- Among more elements than there are indices, the index would be that of another one.
    have found : items[(UInt64.ofNat item.2).toNat]? = some item.1 := by
      rw [toNat_of_mem_zipIdx hlength member]
      exact List.mem_zipIdx_iff_getElem?.mp member
    exact ⟨leaf, hleaf, .item found hstraight⟩
  | mapping entries ih =>
    rw [leaves_mapping] at h
    obtain ⟨entry, member, h⟩ := List.mem_flatMap.mp h
    obtain ⟨rest, hrest, rfl⟩ := List.mem_map.mp h
    obtain ⟨hascending, hentries⟩ := ordered_mapping.mp hordered
    obtain ⟨leaf, hleaf, hstraight⟩ :=
      ih entry member (hentries entry member) (indexed_mapping.mp hindexed entry member) hrest
    exact ⟨leaf, hleaf, .entry (Entries.lookup?_of_mem hascending member) hstraight⟩

/-- Every node of an indexed document has a path that leads straight to it. -/
theorem exists_straight_of_at? {position : List Step} {node there : Document}
    (hindexed : node.Indexed) (h : node.at? position = some there) :
    ∃ segments, segments.map Segment.step = position ∧ Straight segments node there := by
  induction position generalizing node with
  | nil =>
    cases h
    exact ⟨[], rfl, .here⟩
  | cons step rest ih =>
    cases node <;> cases step <;> try cases h
    case mapping.entry entries name =>
      rw [at?_entry] at h
      obtain ⟨child, found, hchild⟩ := Option.bind_eq_some_iff.mp h
      have hinner : child.Indexed :=
        indexed_mapping.mp hindexed (name, child) (Entries.mem_of_lookup? found)
      obtain ⟨segments, rfl, hstraight⟩ := ih hinner hchild
      exact ⟨.key name :: segments, rfl, .entry found hstraight⟩
    case sequence.element items i =>
      rw [at?_element] at h
      obtain ⟨child, found, hchild⟩ := Option.bind_eq_some_iff.mp h
      obtain ⟨hlength, hitems⟩ := indexed_sequence.mp hindexed
      have hindex : (UInt64.ofNat i).toNat = i :=
        toNat_of_mem_zipIdx hlength (List.mk_mem_zipIdx_iff_getElem?.mpr found)
      obtain ⟨segments, rfl, hstraight⟩ := ih (hitems child (List.mem_of_getElem? found)) hchild
      refine ⟨.index (UInt64.ofNat i) :: segments, ?_, .item (by rw [hindex]; exact found) hstraight⟩
      rw [List.map_cons, Segment.step, hindex]

/-! ## The order of the list -/

/-- What leads to the leaves of a node is listed in depth-first order. -/
theorem pairwise_leaves {node : Document} (hordered : node.Ordered) (hindexed : node.Indexed) :
    node.leaves.Pairwise Precedes := by
  induction node using Document.induction with
  | scalar node hscalar =>
    rw [leaves_of_scalar hscalar]
    exact List.pairwise_singleton _ _
  | sequence items ih =>
    obtain ⟨hlength, hitems⟩ := indexed_sequence.mp hindexed
    have positions : items.zipIdx.Pairwise (·.2 < ·.2) := by
      rw [← List.pairwise_map (f := Prod.snd), List.zipIdx_map_snd]
      exact List.pairwise_lt_range'
    rw [leaves_sequence, List.pairwise_flatMap]
    refine ⟨fun item member => ?_, positions.imp_of_mem fun hfirst hsecond hlt p hp q hq => ?_⟩
    · have hitem : item.1 ∈ items := List.fst_mem_of_mem_zipIdx member
      have hinner := ih item.1 hitem (ordered_sequence.mp hordered item.1 hitem)
        (hitems item.1 hitem)
      exact List.pairwise_map.mpr (hinner.imp fun h => .step _ h)
    · obtain ⟨p, -, rfl⟩ := List.mem_map.mp hp
      obtain ⟨q, -, rfl⟩ := List.mem_map.mp hq
      refine .indices (UInt64.lt_iff_toNat_lt.mpr ?_)
      rw [toNat_of_mem_zipIdx hlength hfirst, toNat_of_mem_zipIdx hlength hsecond]
      exact hlt
  | mapping entries ih =>
    obtain ⟨hascending, hentries⟩ := ordered_mapping.mp hordered
    rw [leaves_mapping, List.pairwise_flatMap]
    refine ⟨fun entry member => ?_, hascending.imp fun hlt p hp q hq => ?_⟩
    · have hinner := ih entry member (hentries entry member)
        (indexed_mapping.mp hindexed entry member)
      exact List.pairwise_map.mpr (hinner.imp fun h => .step _ h)
    · obtain ⟨p, -, rfl⟩ := List.mem_map.mp hp
      obtain ⟨q, -, rfl⟩ := List.mem_map.mp hq
      exact .keys hlt

/-! ## The paths -/

theorem mem_leafPaths_iff {document : Document} {path : KeyPath} :
    path ∈ document.leafPaths ↔ path.segments ∈ document.leaves := by
  rw [leafPaths, List.mem_filterMap]
  constructor
  · rintro ⟨segments, member, hpath⟩
    rw [KeyPath.segments_of_ofSegments? hpath]
    exact member
  · intro member
    exact ⟨path.segments, member, KeyPath.ofSegments?_segments path⟩

theorem pairwise_leafPaths {document : Document} (hordered : document.Ordered)
    (hindexed : document.Indexed) :
    document.leafPaths.Pairwise fun path later => Precedes path.segments later.segments := by
  refine (pairwise_leaves hordered hindexed).filterMap _ fun p q h path hpath later hlater => ?_
  rw [KeyPath.segments_of_ofSegments? hpath, KeyPath.segments_of_ofSegments? hlater]
  exact h

/-- **The leaves of a document.** Every path that is listed leads straight to a scalar, which is what
is read at it. Every scalar below the root is at exactly one of them. They are in depth-first order,
none of them is listed twice, and none leads on from another. -/
theorem leafPaths_enumerate (document : Document) (hordered : document.Ordered)
    (hindexed : document.Indexed) :
    (∀ path ∈ document.leafPaths, ∃ leaf, leaf.Scalar ∧
      Straight path.segments document leaf ∧ document.get path = .ok leaf) ∧
    (∀ position leaf, position ≠ [] → document.at? position = some leaf → leaf.Scalar →
      ∃! path, path ∈ document.leafPaths ∧ path.position = position) ∧
    (document.leafPaths.Pairwise fun path later => Precedes path.segments later.segments) ∧
    document.leafPaths.Nodup ∧
    (document.leafPaths.Pairwise fun path other =>
      ¬ path.segments <+: other.segments ∧ ¬ other.segments <+: path.segments) := by
  have hpairwise := pairwise_leafPaths hordered hindexed
  refine ⟨fun path member => ?_, fun position leaf hne hat hleaf => ?_, hpairwise, ?_, ?_⟩
  · obtain ⟨leaf, hleaf, hstraight⟩ :=
      straight_of_mem_leaves hordered hindexed (mem_leafPaths_iff.mp member)
    exact ⟨leaf, hleaf, hstraight, hstraight.get_eq⟩
  · obtain ⟨segments, rfl, hstraight⟩ := exists_straight_of_at? hindexed hat
    cases segments with
    | nil => exact absurd rfl hne
    | cons first rest =>
      have member : (⟨first, rest⟩ : KeyPath) ∈ document.leafPaths :=
        mem_leafPaths_iff.mpr (mem_leaves_of_straight hstraight hleaf)
      exact ⟨⟨first, rest⟩, ⟨member, rfl⟩, fun other h => KeyPath.eq_of_position h.2⟩
  · refine hpairwise.imp fun h heq => ?_
    exact h.diverge.not_prefix (heq ▸ List.prefix_refl _)
  · exact hpairwise.imp fun h => ⟨h.diverge.not_prefix, h.diverge.symm.not_prefix⟩

/-- Three leaves at different depths, between containers without any. -/
theorem leafPaths_enumerate_pools :
    let one : Document := .whole (.ofWord 1)
    let document : Document := .mapping
      [("a", .mapping [("b", one)]),
        ("c", .sequence [.boolean true, .sequence [], .mapping [("d", .null)]]), ("e", .mapping [])]
    let below : KeyPath := ⟨.key "c", [.index 2, .key "d"]⟩
    document.Ordered ∧ document.Indexed ∧
      document.leafPaths
        = [⟨.key "a", [.key "b"]⟩, ⟨.key "c", [.index 0]⟩, below] ∧
      document.get below = .ok .null ∧
      Precedes [.key "c", .index 0] below.segments ∧
      ∃! path, path ∈ document.leafPaths ∧ path.position = [.entry "a", .entry "b"] := by
  intro one document below
  have hordered : document.Ordered := by decide
  have hindexed : document.Indexed := by decide
  have hpaths : document.leafPaths
      = [⟨.key "a", [.key "b"]⟩, ⟨.key "c", [.index 0]⟩, below] := by rfl
  obtain ⟨hread, honce, horder, -, -⟩ := leafPaths_enumerate document hordered hindexed
  refine ⟨hordered, hindexed, hpaths, ?_, ?_, ?_⟩
  · obtain ⟨leaf, -, hstraight, hget⟩ := hread below (by rw [hpaths]; simp)
    have hleaf : leaf = .null := by
      have hat := straight_iff_at?.mp hstraight
      cases hat
      rfl
    rw [hget, hleaf]
  · rw [hpaths] at horder
    exact (List.pairwise_cons.mp (List.pairwise_cons.mp horder).2).1 below List.mem_cons_self
  · exact honce [.entry "a", .entry "b"] one (by simp) rfl (by decide)

end Document

end Variation
