import Variation.Proofs.Axis.Writes

/-!
# Axes without relationships

Axes without relationships span a grid: a document for every combination of candidates, the last
axis changing fastest. The position of a document, written with the numbers of candidates as the
bases of its digits, gives the candidate of each axis (`getElem?_writeLists`). If the axes write to
divergent places each document holds its candidates (`permute_grid`), so a document tells its
position if the candidates of each axis differ.
-/

namespace Variation

open Pending (ofAxes ofRelationships)

/-! ## Digits -/

/-- In how many ways a candidate of each axis can be taken. -/
def combinations (axes : List Axis) : Nat :=
  (axes.map (·.candidates.length)).prod

theorem combinations_cons (axis : Axis) (rest : List Axis) :
    combinations (axis :: rest) = axis.candidates.length * combinations rest := by
  simp [combinations]

theorem combinations_eq_of_getElem? {axes : List Axis} {i : Nat} {axis : Axis}
    (found : axes[i]? = some axis) :
    combinations axes
      = combinations (axes.take i) * axis.candidates.length * combinations (axes.drop (i + 1)) := by
  obtain ⟨bound, rfl⟩ := List.getElem?_eq_some_iff.mp found
  have split : axes = axes.take i ++ axes[i] :: axes.drop (i + 1) := by simp
  calc combinations axes
      = combinations (axes.take i ++ axes[i] :: axes.drop (i + 1)) := by rw [← split]
    _ = combinations (axes.take i) * combinations (axes[i] :: axes.drop (i + 1)) := by
      rw [combinations, List.map_append, List.prod_append, combinations, combinations]
    _ = _ := by rw [combinations_cons, Nat.mul_assoc]

/-- The digit of a position at an axis. -/
def digit (axes : List Axis) (i : Nat) (axis : Axis) (position : Nat) : Nat :=
  position / combinations (axes.drop (i + 1)) % axis.candidates.length

/-- A digit does not see whole multiples of the number of all combinations. -/
theorem digit_mod {axes : List Axis} {i : Nat} {axis : Axis} (found : axes[i]? = some axis)
    (position : Nat) :
    digit axes i axis (position % combinations axes) = digit axes i axis position := by
  rw [digit, combinations_eq_of_getElem? found, Nat.mod_mul_left_div_self, Nat.mod_mul_left_mod]
  rfl

/-- Positions with the same digits are the same. -/
theorem eq_of_digits {axes : List Axis} {j k : Nat} (hj : j < combinations axes)
    (hk : k < combinations axes)
    (h : ∀ i axis, axes[i]? = some axis → digit axes i axis j = digit axes i axis k) : j = k := by
  induction axes generalizing j k with
  | nil =>
    simp [combinations] at hj hk
    omega
  | cons axis rest ih =>
    rw [combinations_cons] at hj hk
    have positive : 0 < combinations rest := Nat.pos_of_mul_pos_left (Nat.zero_lt_of_lt hj)
    have quotient : j / combinations rest = k / combinations rest := by
      have hdigit := h 0 axis rfl
      have hj' : j / combinations rest < axis.candidates.length :=
        Nat.div_lt_of_lt_mul (by rwa [Nat.mul_comm])
      have hk' : k / combinations rest < axis.candidates.length :=
        Nat.div_lt_of_lt_mul (by rwa [Nat.mul_comm])
      simpa [digit, Nat.mod_eq_of_lt hj', Nat.mod_eq_of_lt hk'] using hdigit
    have remainder : j % combinations rest = k % combinations rest := by
      refine ih (Nat.mod_lt j positive) (Nat.mod_lt k positive) fun i axis' found => ?_
      rw [digit_mod found, digit_mod found]
      exact h (i + 1) axis' found
    rw [← Nat.div_add_mod j (combinations rest), ← Nat.div_add_mod k (combinations rest),
      quotient, remainder]

/-! ## The writes at a position -/

theorem getElem?_flatMap_of_length {α β : Type} {f : α → List β} {size : Nat} {items : List α}
    (positive : 0 < size) (h : ∀ item ∈ items, (f item).length = size) (position : Nat) :
    (items.flatMap f)[position]?
      = items[position / size]?.bind fun item => (f item)[position % size]? := by
  induction items generalizing position with
  | nil => simp
  | cons item rest ih =>
    obtain ⟨first, behind⟩ := List.forall_mem_cons.mp h
    rw [List.flatMap_cons]
    rcases Nat.lt_or_ge position size with hlt | hge
    · rw [List.getElem?_append_left (by rwa [first]), Nat.div_eq_of_lt hlt, Nat.mod_eq_of_lt hlt]
      rfl
    · rw [List.getElem?_append_right (by rwa [first]), first, ih behind,
        Nat.div_eq_sub_div positive hge, ← Nat.mod_eq_sub_mod hge]
      rfl

theorem writeLists_plain {axis : Axis} (plain : axis.relationships = []) (todo : List Pending) :
    writeLists (.axis axis :: todo)
      = axis.candidates.flatMap fun chosen => (writeLists todo).map (⟨axis.path, chosen⟩ :: ·) := by
  obtain ⟨path, candidates, relationships⟩ := axis
  cases plain
  exact writeLists_axis path candidates [] todo

theorem length_writeLists {axes : List Axis} (plain : ∀ axis ∈ axes, axis.relationships = []) :
    (writeLists (ofAxes axes)).length = combinations axes := by
  induction axes with
  | nil => rfl
  | cons axis rest ih =>
    obtain ⟨first, behind⟩ := List.forall_mem_cons.mp plain
    rw [ofAxes, List.map_cons, writeLists_plain first, combinations_cons, ← ih behind]
    simp [List.length_flatMap, ofAxes]

/-- The candidate that the writes at a position make at an axis, with the writes of the other axes
around it. -/
theorem getElem?_writeLists {axes : List Axis} (plain : ∀ axis ∈ axes, axis.relationships = [])
    {position : Nat} {writes : List Assignment}
    (h : (writeLists (ofAxes axes))[position]? = some writes) :
    writes.map (·.path) = axes.map (·.path) ∧
    ∀ i axis, axes[i]? = some axis → ∃ candidate,
      axis.candidates[digit axes i axis position]? = some candidate ∧
        writes[i]? = some ⟨axis.path, candidate⟩ := by
  induction axes generalizing position writes with
  | nil =>
    have member : writes ∈ writeLists [] := List.mem_of_getElem? h
    simp [writeLists, selections] at member
    simp [member]
  | cons axis rest ih =>
    obtain ⟨first, behind⟩ := List.forall_mem_cons.mp plain
    have bound : position < combinations (axis :: rest) := by
      rw [← length_writeLists plain]
      exact (List.getElem?_eq_some_iff.mp h).1
    have positive : 0 < combinations rest := by
      rw [combinations_cons] at bound
      exact Nat.pos_of_mul_pos_left (Nat.zero_lt_of_lt bound)
    rw [ofAxes, List.map_cons, writeLists_plain first,
      getElem?_flatMap_of_length positive fun chosen _ => by
        rw [List.length_map]; exact length_writeLists behind] at h
    obtain ⟨chosen, hchosen, h⟩ := Option.bind_eq_some_iff.mp h
    rw [List.getElem?_map] at h
    obtain ⟨tail, htail, rfl⟩ := Option.map_eq_some_iff.mp h
    obtain ⟨paths, candidates⟩ := ih behind htail
    refine ⟨by simpa using paths, ?_⟩
    intro i axis' found
    cases i with
    | zero =>
      cases found
      have hdigit : digit (axis :: rest) 0 axis position = position / combinations rest :=
        Nat.mod_eq_of_lt (List.getElem?_eq_some_iff.mp hchosen).1
      exact ⟨chosen, by rw [hdigit]; exact hchosen, rfl⟩
    | succ i =>
      have behind_first : rest[i]? = some axis' := found
      obtain ⟨candidate, hcandidate, hwrite⟩ := candidates i axis' behind_first
      rw [digit_mod behind_first] at hcandidate
      exact ⟨candidate, hcandidate, hwrite⟩

/-! ## The documents at the positions -/

section Documents

variable {axes : List Axis} {base : Document} {documents : List Document}

/-- A write is read back whatever else is written, before or behind, if all of it diverges. -/
theorem readsBack_of_divergent {write : Assignment} {earlier later : List Assignment}
    {document : Document}
    (apart : ∀ next ∈ earlier ++ later, write.path.Diverges next.path)
    (h : base.assignedAll (earlier ++ write :: later) = .ok document) :
    base.ReadsBack write.path write.value document := by
  obtain ⟨hearlier, hlater⟩ := List.forall_mem_append.mp apart
  rw [List.append_cons] at h
  obtain ⟨middle, hfront, hback⟩ := Document.assignedAll_append_eq_ok.mp h
  -- The write may as well have been made first of all.
  have moved : base.assignedAll ([write] ++ earlier) = .ok middle := by
    refine Document.assignedAll_comm ?_ hfront
    intro next hn write' hw
    rw [List.mem_singleton.mp hw]
    exact (hearlier next hn).symm
  have whole : base.assignedAll ([write] ++ (earlier ++ later)) = .ok document := by
    rw [← List.append_assoc]
    exact Document.assignedAll_append_eq_ok.mpr ⟨middle, moved, hback⟩
  obtain ⟨before, hbefore, hread⟩ :=
    Document.stands_of_assignedAll whole [] write (earlier ++ later) rfl apart
  cases hbefore
  exact hread

theorem getElem?_permute (h : permute axes base = .ok documents) {position : Nat}
    {document : Document} (found : documents[position]? = some document) :
    ∃ writes, (writeLists (ofAxes axes))[position]? = some writes ∧
      base.assignedAll writes = .ok document := by
  have hmap := congrArg (·[position]?) (map_permute h)
  simp only [List.getElem?_map, found, Option.map_some] at hmap
  obtain ⟨selection, hs, hwrites⟩ := Option.map_eq_some_iff.mp hmap.symm
  refine ⟨selection.writes, ?_, hwrites⟩
  rw [writeLists, List.getElem?_map, hs]
  rfl

theorem eq_of_same_of_pairwise {items : List Document}
    (distinct : items.Pairwise fun a b => a.same b = false) {j k : Nat} {a b : Document}
    (ha : items[j]? = some a) (hb : items[k]? = some b) (hab : a.same b = true) : j = k := by
  obtain ⟨hj, rfl⟩ := List.getElem?_eq_some_iff.mp ha
  obtain ⟨hk, rfl⟩ := List.getElem?_eq_some_iff.mp hb
  rw [List.pairwise_iff_getElem] at distinct
  rcases Nat.lt_trichotomy j k with hlt | heq | hgt
  · rw [distinct j k hj hk hlt] at hab
    cases hab
  · exact heq
  · rw [Document.same_comm, distinct k j hk hj hgt] at hab
    cases hab

/-- The candidate of each axis is read back from the document at a position. -/
theorem get_of_getElem?_permute (plain : ∀ axis ∈ axes, axis.relationships = [])
    (apart : axes.Pairwise fun a b => a.path.Diverges b.path)
    (filled : ∀ axis ∈ axes, ¬ Document.MeetsEmpty axis.path.segments base)
    (h : permute axes base = .ok documents) {position : Nat} {document : Document}
    (found : documents[position]? = some document) {i : Nat} {axis : Axis}
    (at_axis : axes[i]? = some axis) :
    ∃ candidate, axis.candidates[digit axes i axis position]? = some candidate ∧
      document.get axis.path = .ok candidate := by
  obtain ⟨writes, hwrites, hdocument⟩ := getElem?_permute h found
  obtain ⟨paths, candidates⟩ := getElem?_writeLists plain hwrites
  obtain ⟨candidate, hcandidate, hwrite⟩ := candidates i axis at_axis
  refine ⟨candidate, hcandidate, ?_⟩
  obtain ⟨earlier, later, rfl⟩ : ∃ earlier later,
      writes = earlier ++ ⟨axis.path, candidate⟩ :: later :=
    List.append_of_mem (List.mem_of_getElem? hwrite)
  -- The other writes are those of the other axes.
  have pairwise : (earlier ++ ⟨axis.path, candidate⟩ :: later).Pairwise
      fun a b => a.path.Diverges b.path := by
    rw [← List.pairwise_map (f := Assignment.path) (R := KeyPath.Diverges), paths]
    exact List.pairwise_map.mpr apart
  obtain ⟨_, behind, across⟩ := List.pairwise_append.mp pairwise
  have divergent : ∀ next ∈ earlier ++ later, axis.path.Diverges next.path := by
    refine List.forall_mem_append.mpr ⟨fun next hn => ?_, (List.pairwise_cons.mp behind).1⟩
    exact (across next hn _ List.mem_cons_self).symm
  rcases readsBack_of_divergent divergent hdocument with ⟨hread, _⟩ | ⟨_, met⟩
  · exact hread
  · exact absurd met (filled axis (List.mem_of_getElem? at_axis))

/-- **Axes without relationships span a grid.** -/
theorem permute_grid (axes : List Axis) (base : Document) (documents : List Document)
    (plain : ∀ axis ∈ axes, axis.relationships = [])
    (apart : axes.Pairwise fun a b => a.path.Diverges b.path)
    (filled : ∀ axis ∈ axes, ¬ Document.MeetsEmpty axis.path.segments base)
    (h : permute axes base = .ok documents) :
    documents.length = (axes.map (·.candidates.length)).prod ∧
    (∀ position document i axis, documents[position]? = some document → axes[i]? = some axis →
      ∃ candidate,
        axis.candidates[position / ((axes.drop (i + 1)).map (·.candidates.length)).prod
          % axis.candidates.length]? = some candidate ∧
        document.get axis.path = .ok candidate) ∧
    ((∀ axis ∈ axes, axis.candidates.Pairwise fun a b => a.same b = false) →
      documents.Pairwise fun a b => a.same b = false) := by
  have length : documents.length = combinations axes := by
    rw [← length_writeLists plain, writeLists, List.length_map]
    simpa using congrArg List.length (map_permute h)
  refine ⟨length, ?_, ?_⟩
  · intro position document i axis found at_axis
    exact get_of_getElem?_permute plain apart filled h found at_axis
  · intro distinct
    rw [List.pairwise_iff_getElem]
    intro j k hj hk hlt
    by_contra same
    rw [Bool.not_eq_false] at same
    have digits : ∀ i axis, axes[i]? = some axis → digit axes i axis j = digit axes i axis k := by
      intro i axis at_axis
      obtain ⟨a, ha, hread⟩ := get_of_getElem?_permute plain apart filled h
        (List.getElem?_eq_getElem hj) at_axis
      obtain ⟨b, hb, hread'⟩ := get_of_getElem?_permute plain apart filled h
        (List.getElem?_eq_getElem hk) at_axis
      have hab : a.same b = true := Document.same_of_lookupFrom same hread hread'
      exact eq_of_same_of_pairwise (distinct axis (List.mem_of_getElem? at_axis)) ha hb hab
    exact absurd (eq_of_digits (length ▸ hj) (length ▸ hk) digits) (Nat.ne_of_lt hlt)

/-- Two axes over pools in nested sequences: the document at position four of six. -/
theorem permute_grid_pools :
    let pool (name : String) : KeyPath := ⟨.key "pools", [.key name]⟩
    let axes : List Axis :=
      [⟨pool "os", [.text "linux", .text "windows"], []⟩,
        ⟨pool "size", [.null, .boolean false, .boolean true], []⟩]
    let base : Document := .mapping [("pools", .sequence [.mapping [], .sequence [.mapping []]])]
    (∀ axis ∈ axes, axis.relationships = []) ∧
      axes.Pairwise (fun a b => a.path.Diverges b.path) ∧
      (∀ axis ∈ axes, ¬ Document.MeetsEmpty axis.path.segments base) ∧
      ∃ documents, permute axes base = .ok documents ∧ documents.length = 6 ∧
        (∃ document, documents[4]? = some document ∧
          document.get (pool "os") = .ok (.text "windows") ∧
          document.get (pool "size") = .ok (.boolean false)) ∧
        documents.Pairwise fun a b => a.same b = false := by
  intro pool axes base
  have plain : ∀ axis ∈ axes, axis.relationships = [] := by simp [axes]
  have apart : axes.Pairwise (fun a b => a.path.Diverges b.path) := by decide
  have filled : ∀ axis ∈ axes, ¬ Document.MeetsEmpty axis.path.segments base := by
    simp [axes, base, pool, KeyPath.segments, Document.meetsEmpty_mapping,
      Document.meetsEmpty_sequence, Entries.lookup?]
  obtain ⟨length, candidates, distinct⟩ := permute_grid axes base _ plain apart filled rfl
  refine ⟨plain, apart, filled, _, rfl, length, ⟨_, rfl, ?_, ?_⟩, distinct ?_⟩
  · obtain ⟨candidate, hcandidate, hread⟩ := candidates 4 _ 0 _ rfl rfl
    simp only [axes, List.drop, List.map, List.prod_cons, List.prod_nil] at hcandidate
    rw [hread, ← Option.some.inj hcandidate]
  · obtain ⟨candidate, hcandidate, hread⟩ := candidates 4 _ 1 _ rfl rfl
    simp only [axes, List.drop, List.map, List.prod_nil] at hcandidate
    rw [hread, ← Option.some.inj hcandidate]
  · decide

end Documents

end Variation
