import Variation.Proofs.Axis.Writes

/-!
# The order of axes

Axes that write to divergent places may be declared in any order: the expansion succeeds for all
orders or for none, and makes the same documents, each as often (`permute_reordered`). Only the
order of the documents tells the orders of the axes apart.

An `effect` is what a list of writes makes of every document, if it succeeds. The effects of axes
are a list of such functions, one for each complete selection, and reordering the axes permutes that
list: effects of different axes commute, as their writes do. The claim follows at every base
document, since axes that never lack candidates expand if all their effects are defined there.
-/

namespace Variation

open Pending (ofAxes ofRelationships)

/-! ## Axes that never lack candidates -/

/-- The axis has a candidate, and so have all axes of its relationships, at any depth. -/
inductive Axis.Filled : Axis → Prop
  | mk {axis : Axis} (candidate : axis.candidates ≠ [])
      (below : ∀ relationship ∈ axis.relationships, ∀ child ∈ relationship.children, child.Filled) :
      axis.Filled

def Pending.Filled : Pending → Prop
  | .axis first => first.Filled
  | .relationship first _ => ∀ child ∈ first.children, child.Filled

/-- What a selection comes to is filled if what it starts from is. -/
theorem Selects.filled {todo left : List Pending} {choices : List Nat} {writes : List Assignment}
    (h : Selects todo choices writes left) (filled : ∀ next ∈ todo, next.Filled) :
    ∀ next ∈ left, next.Filled := by
  induction h with
  | stop => exact filled
  | @choose path candidates relationships chosen position todo left choices writes _ _ ih =>
    obtain ⟨first, rest⟩ := List.forall_mem_cons.mp filled
    obtain ⟨_, below⟩ := first
    refine ih (List.forall_mem_append.mpr ⟨?_, rest⟩)
    intro next member
    obtain ⟨relationship, hr, rfl⟩ := List.mem_map.mp member
    exact below relationship hr
  | @follow relationship chosen todo left choices writes _ _ ih =>
    obtain ⟨first, rest⟩ := List.forall_mem_cons.mp filled
    refine ih (List.forall_mem_append.mpr ⟨?_, rest⟩)
    intro next member
    obtain ⟨child, hc, rfl⟩ := List.mem_map.mp member
    exact first child hc
  | pass _ _ ih => exact ih (List.forall_mem_cons.mp filled).2

/-- Some selection comes through what is filled. -/
theorem Leads.nil_of_filled {todo : List Pending} (filled : ∀ next ∈ todo, next.Filled) :
    Leads todo [] := by
  refine .nil_of_candidates fun axis left hl => ?_
  obtain ⟨_, _, hs⟩ := hl
  obtain ⟨candidate, _⟩ := hs.filled filled (.axis axis) List.mem_cons_self
  exact candidate

/-- A selection of filled axes can always be completed. -/
theorem Selects.exists_complete {todo left : List Pending} {choices : List Nat}
    {writes : List Assignment} (h : Selects todo choices writes left)
    (filled : ∀ next ∈ todo, next.Filled) : ∃ later, writes ++ later ∈ writeLists todo := by
  obtain ⟨choices', later, hrest⟩ := Leads.nil_of_filled (h.filled filled)
  exact ⟨later, mem_writeLists_iff.mpr ⟨_, h.append hrest⟩⟩

/-- Filled axes expand if all complete selections can be written. -/
theorem exists_permute_iff {axes : List Axis} {base : Document} (nonempty : axes ≠ [])
    (filled : ∀ axis ∈ axes, axis.Filled) :
    (∃ documents, permute axes base = .ok documents) ↔
      ∀ writes ∈ writeLists (ofAxes axes), ∃ after, base.assignedAll writes = .ok after := by
  simp only [permute_eq_ok nonempty, exists_expandPending_iff]
  constructor
  · intro h writes member
    obtain ⟨choices, hs⟩ := mem_writeLists_iff.mp member
    exact h choices writes [] hs
  · intro h choices writes left hs
    have pending : ∀ next ∈ ofAxes axes, next.Filled := by
      intro next member
      obtain ⟨axis, ha, rfl⟩ := List.mem_map.mp member
      exact filled axis ha
    obtain ⟨later, member⟩ := hs.exists_complete pending
    obtain ⟨after, hafter⟩ := h _ member
    obtain ⟨middle, hmiddle, _⟩ := Document.assignedAll_append_eq_ok.mp hafter
    exact ⟨middle, hmiddle⟩

/-! ## Effects -/

/-- What writes make of a document, if they succeed. -/
def effect (writes : List Assignment) (document : Document) : Option Document :=
  (document.assignedAll writes).toOption

theorem effect_eq_some {writes : List Assignment} {document after : Document} :
    effect writes document = some after ↔ document.assignedAll writes = .ok after := by
  rw [effect]
  cases document.assignedAll writes <;> simp [Except.toOption]

theorem effect_append (front back : List Assignment) :
    effect (front ++ back) = fun document => (effect front document).bind (effect back) := by
  funext document
  simp only [effect, Document.assignedAll_append]
  cases document.assignedAll front <;> rfl

theorem effect_comm {front back : List Assignment}
    (apart : ∀ write ∈ front, ∀ next ∈ back, write.path.Diverges next.path) :
    effect (front ++ back) = effect (back ++ front) := by
  funext document
  ext after
  rw [effect_eq_some, effect_eq_some]
  constructor
  · exact Document.assignedAll_comm apart
  · exact Document.assignedAll_comm fun next hn write hw => (apart write hw next hn).symm

/-- The effects of the complete selections. -/
def effects (todo : List Pending) : List (Document → Option Document) :=
  (writeLists todo).map effect

theorem effects_append (front back : List Pending) :
    effects (front ++ back)
      = (effects front).flatMap fun first =>
          (effects back).map fun second => fun document => (first document).bind second := by
  simp only [effects, writeLists_append, List.map_flatMap, List.flatMap_map, List.map_map,
    Function.comp_def, effect_append]

theorem ofAxes_cons (axis : Axis) (axes : List Axis) :
    ofAxes (axis :: axes) = [.axis axis] ++ ofAxes axes :=
  rfl

theorem Selects.path_mem_axis {axis : Axis} {choices : List Nat} {writes : List Assignment}
    {left : List Pending} (h : Selects [.axis axis] choices writes left) :
    ∀ write ∈ writes, write.path ∈ axis.paths := by
  simpa [Pending.paths] using h.path_mem

/-- Combinations may be listed by the first component or by the second. -/
theorem flatMap_map_perm {α β γ : Type} (f : α → β → γ) (as : List α) (bs : List β) :
    (as.flatMap fun a => bs.map (f a)).Perm (bs.flatMap fun b => as.map fun a => f a b) := by
  rw [← Multiset.coe_eq_coe]
  simpa only [Multiset.coe_bind, Multiset.map_coe] using
    Multiset.bind_map_comm (as : Multiset α) (bs : Multiset β) (f := f)

/-- Two axes that write to divergent places have the same effects in either order. -/
theorem perm_effects_swap {a b : Axis} (apart : ∀ p ∈ a.paths, ∀ q ∈ b.paths, p.Diverges q) :
    (effects ([.axis a] ++ [.axis b])).Perm (effects ([.axis b] ++ [.axis a])) := by
  have commute : ∀ u ∈ writeLists [.axis a], ∀ v ∈ writeLists [.axis b],
      effect (u ++ v) = effect (v ++ u) := by
    intro u hu v hv
    obtain ⟨_, hu⟩ := mem_writeLists_iff.mp hu
    obtain ⟨_, hv⟩ := mem_writeLists_iff.mp hv
    exact effect_comm fun write hw next hn =>
      apart _ (hu.path_mem_axis write hw) _ (hv.path_mem_axis next hn)
  simp only [effects, writeLists_append, List.map_flatMap, List.map_map, Function.comp_def]
  refine (flatMap_map_perm (fun u v => effect (u ++ v)) _ _).trans ?_
  refine .flatMap_left _ fun v hv => ?_
  rw [List.map_congr_left fun u hu => commute u hu v hv]

/-- **Reordering permutes the effects.** -/
theorem perm_effects {axes reordered : List Axis} (order : axes.Perm reordered)
    (apart : axes.Pairwise fun a b => ∀ p ∈ a.paths, ∀ q ∈ b.paths, p.Diverges q) :
    (effects (ofAxes axes)).Perm (effects (ofAxes reordered)) := by
  induction order with
  | nil => exact .refl _
  | @cons axis l₁ l₂ order ih =>
    have hrest := ih (List.pairwise_cons.mp apart).2
    rw [ofAxes_cons, ofAxes_cons, effects_append, effects_append]
    exact .flatMap_left _ fun first _ => hrest.map _
  | swap a b l =>
    have hab := (List.pairwise_cons.mp apart).1 a List.mem_cons_self
    simp only [ofAxes_cons, ← List.append_assoc]
    rw [effects_append ([Pending.axis b] ++ [Pending.axis a]),
      effects_append ([Pending.axis a] ++ [Pending.axis b])]
    exact (perm_effects_swap hab).flatMap_right _
  | trans first second ihFirst ihSecond =>
    have symmetric : ∀ {a b : Axis}, (∀ p ∈ a.paths, ∀ q ∈ b.paths, p.Diverges q) →
        ∀ p ∈ b.paths, ∀ q ∈ a.paths, p.Diverges q :=
      fun h p hp q hq => (h q hq p hp).symm
    exact (ihFirst apart).trans (ihSecond ((first.pairwise_iff symmetric).mp apart))

/-! ## Documents -/

theorem map_some_permute {axes : List Axis} {base : Document} {documents : List Document}
    (h : permute axes base = .ok documents) :
    documents.map some = (effects (ofAxes axes)).map (· base) := by
  have hmap := congrArg (List.map Except.toOption) (map_permute h)
  simpa [effects, writeLists, effect, Function.comp_def, Except.toOption] using hmap

theorem forall_writeLists_iff {todo : List Pending} {base : Document} :
    (∀ writes ∈ writeLists todo, ∃ after, base.assignedAll writes = .ok after) ↔
      ∀ made ∈ effects todo, ∃ after, made base = some after := by
  simp [effects, effect_eq_some]

/-- **Axes that write to divergent places may be declared in any order.** -/
theorem permute_reordered (axes reordered : List Axis) (base : Document)
    (order : axes.Perm reordered) (filled : ∀ axis ∈ axes, axis.Filled)
    (apart : axes.Pairwise fun a b => ∀ p ∈ a.paths, ∀ q ∈ b.paths, p.Diverges q) :
    ((∃ documents, permute reordered base = .ok documents) ↔
      ∃ documents, permute axes base = .ok documents) ∧
    ∀ documents documents', permute axes base = .ok documents →
      permute reordered base = .ok documents' → documents'.Perm documents := by
  have perm := perm_effects order apart
  constructor
  · rcases eq_or_ne axes [] with rfl | nonempty
    · rw [order.nil_eq]
    · have nonempty' : reordered ≠ [] := by
        rintro rfl
        exact nonempty order.eq_nil
      have filled' : ∀ axis ∈ reordered, axis.Filled :=
        fun axis member => filled axis (order.mem_iff.mpr member)
      rw [exists_permute_iff nonempty filled, exists_permute_iff nonempty' filled',
        forall_writeLists_iff, forall_writeLists_iff]
      simp only [perm.mem_iff]
  · intro documents documents' h h'
    have hmap : (documents'.map some).Perm (documents.map some) := by
      rw [map_some_permute h, map_some_permute h']
      exact (perm.map _).symm
    exact (List.map_perm_map_iff (Option.some_injective Document)).mp hmap

/-- An axis with a nested axis and an assignment, and an axis that writes into the same pools. -/
theorem permute_reordered_pools :
    let pool (name : String) : KeyPath := ⟨.key "pools", [.key name]⟩
    let os : Axis := ⟨pool "os", [.text "linux", .text "windows"],
      [⟨.text "linux", some ⟨⟨.key "region", []⟩, .text "eu"⟩,
        [⟨⟨.key "zone", []⟩, [.text "x", .text "y"], []⟩]⟩]⟩
    let size : Axis := ⟨pool "size", [.whole (.ofWord 1), .whole (.ofWord 2)], []⟩
    let base : Document := .mapping [("pools", .sequence [.mapping [], .sequence [.mapping []]])]
    [os, size].Perm [size, os] ∧ (∀ axis ∈ [os, size], axis.Filled) ∧
      [os, size].Pairwise (fun a b => ∀ p ∈ a.paths, ∀ q ∈ b.paths, p.Diverges q) ∧
      ∃ documents documents', permute [os, size] base = .ok documents ∧
        permute [size, os] base = .ok documents' ∧ documents.length = 6 ∧
        documents'.Perm documents := by
  intro pool os size base
  have order : [os, size].Perm [size, os] := .swap size os []
  have filled : ∀ axis ∈ [os, size], axis.Filled := by
    have zone : ∀ child ∈ [⟨⟨.key "zone", []⟩, [.text "x", .text "y"], []⟩], Axis.Filled child := by
      simpa using Axis.Filled.mk (by simp) (by simp)
    intro axis member
    rcases List.mem_pair.mp member with rfl | rfl
    · exact .mk (by simp [os]) (by simpa [os] using zone)
    · exact .mk (by simp [size]) (by simp [size])
  have apart : [os, size].Pairwise (fun a b => ∀ p ∈ a.paths, ∀ q ∈ b.paths, p.Diverges q) := by
    decide
  obtain ⟨succeeds, perm⟩ := permute_reordered [os, size] [size, os] base order filled apart
  obtain ⟨documents', h'⟩ := succeeds.mpr ⟨_, rfl⟩
  exact ⟨order, filled, apart, _, documents', rfl, h', rfl, perm _ documents' rfl h'⟩

end Variation
