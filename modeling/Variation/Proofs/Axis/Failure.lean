import Variation.Proofs.Axis.Levels
import Variation.Proofs.Document.Location

/-!
# Failures of an expansion

An expansion that fails has worked on many branches by then, and what it reports is the first error
that the order of its work has met. `FailsAlong` says where the error comes from: there is one
selection, gone part of the way, whose writes succeed one after the other up to the last, which
fails with this error. It goes the way that `Selects` allows, so the failing branch could be run by
itself.
-/

namespace Variation

open Pending (ofAxes ofRelationships)

/-! ## Failures of joined steps -/

section Concat

variable {α β ε : Type}

theorem bind_eq_error {step : Except ε α} {next : α → Except ε β} {error : ε} :
    step.bind next = .error error ↔
      step = .error error ∨ ∃ value, step = .ok value ∧ next value = .error error := by
  cases step <;> simp [Except.bind]

theorem exists_of_concatEach_eq_error {f : α → Except ε (List β)} {items : List α} {error : ε}
    (h : concatEach f items = .error error) : ∃ item ∈ items, f item = .error error := by
  induction items with
  | nil => cases h
  | cons item rest ih =>
    rw [concatEach_cons] at h
    rcases bind_eq_error.mp h with hitem | ⟨parts, _, hrest⟩
    · exact ⟨item, List.mem_cons_self, hitem⟩
    · rcases bind_eq_error.mp hrest with hrest | ⟨more, _, hmore⟩
      · obtain ⟨other, member, hother⟩ := ih hrest
        exact ⟨other, List.mem_cons_of_mem _ member, hother⟩
      · cases hmore

end Concat

/-! ## The branch that fails -/

/-- Some selection of what is pending makes writes of which the last fails with the error, and those
before it succeed. -/
def FailsAlong (todo : List Pending) (document : Document) (error : AccessError) : Prop :=
  ∃ choices before write left after, Selects todo choices (before ++ [write]) left ∧
    document.assignedAll before = .ok after ∧
    (after.replace write.path write.value).done = .error error

namespace FailsAlong

variable {todo back : List Pending} {document branch : Document} {error : AccessError}

theorem append_right (h : FailsAlong todo document error) (back : List Pending) :
    FailsAlong (todo ++ back) document error := by
  obtain ⟨choices, before, write, left, after, hs, hbefore, hwrite⟩ := h
  exact ⟨choices, before, write, left ++ back, after, hs.append_right back, hbefore, hwrite⟩

/-- What fails on a branch that a selection has come to fails further along this selection. -/
theorem behind {choices : List Nat} {writes : List Assignment}
    (first : Selects todo choices writes back) (made : document.assignedAll writes = .ok branch)
    (h : FailsAlong back branch error) : FailsAlong todo document error := by
  obtain ⟨choices', before, write, left, after, hs, hbefore, hwrite⟩ := h
  refine ⟨choices ++ choices', writes ++ before, write, left, after, ?_, ?_, hwrite⟩
  · rw [List.append_assoc]
    exact first.append hs
  · rw [Document.assignedAll_append, made]
    exact hbefore

/-- Either the next thing fails, or what stands behind it does, on one of the branches made. -/
theorem of_bind (next : Pending) {expand : Document → Except AccessError (List Document)}
    (hnext : next.expand document = .error error → FailsAlong [next] document error)
    (htodo : ∀ branch, expand branch = .error error → FailsAlong todo branch error)
    (h : (next.expand document).bind (concatEach expand) = .error error) :
    FailsAlong (next :: todo) document error := by
  rcases bind_eq_error.mp h with hfails | ⟨branches, hbranches, hfails⟩
  · exact (hnext hfails).append_right todo
  · obtain ⟨branch, member, hbranch⟩ := exists_of_concatEach_eq_error hfails
    rw [← expandPending_singleton] at hbranches
    obtain ⟨choices, writes, hs, hwrites⟩ := exists_selects_of_mem hbranches member
    exact (htodo branch hbranch).behind (hs.append_right todo) hwrites

end FailsAlong

mutual
/-- **An expansion that fails does so along a selection.** -/
theorem failsAlong_of_expandAxes : ∀ (axes : List Axis) {document : Document} {error : AccessError},
    expandAxes axes document = .error error → FailsAlong (ofAxes axes) document error
  | [], _, _, h => by cases h
  | axis :: rest, document, error, h => by
    rw [expandAxes_cons] at h
    exact .of_bind (.axis axis) (failsAlong_of_expandAxis axis)
      (fun _ => failsAlong_of_expandAxes rest) h

theorem failsAlong_of_expandAxis : ∀ (axis : Axis) {document : Document} {error : AccessError},
    expandAxis axis document = .error error → FailsAlong [.axis axis] document error
  | ⟨path, candidates, relationships⟩, document, error, h => by
    rw [expandAxis_mk] at h
    obtain ⟨chosen, member, hchosen⟩ := exists_of_concatEach_eq_error h
    obtain ⟨position, candidate⟩ := List.mem_iff_getElem?.mp member
    have choice : Selects [.axis ⟨path, candidates, relationships⟩] [position] [⟨path, chosen⟩]
        (ofRelationships relationships chosen ++ []) := .choose candidate .stop
    rcases bind_eq_error.mp hchosen with hwrite | ⟨branch, hbranch, hbehind⟩
    · exact ⟨[position], [], ⟨path, chosen⟩, _, document, choice, rfl, hwrite⟩
    · rw [← Document.assignedAll_singleton document ⟨path, chosen⟩] at hbranch
      have hfails := failsAlong_of_expandRelationships relationships hbehind
      exact (hfails.append_right []).behind choice hbranch

theorem failsAlong_of_expandRelationships : ∀ (relationships : List Relationship)
    {chosen document : Document} {error : AccessError},
    expandRelationships relationships chosen document = .error error →
      FailsAlong (ofRelationships relationships chosen) document error
  | [], _, _, _, h => by cases h
  | relationship :: rest, chosen, document, error, h => by
    rw [expandRelationships_cons] at h
    exact .of_bind (.relationship relationship chosen) (failsAlong_of_expandRelationship relationship)
      (fun _ => failsAlong_of_expandRelationships rest) h

theorem failsAlong_of_expandRelationship : ∀ (relationship : Relationship)
    {chosen document : Document} {error : AccessError},
    expandRelationship relationship chosen document = .error error →
      FailsAlong [.relationship relationship chosen] document error
  | ⟨parent, assignment, children⟩, chosen, document, error, h => by
    rw [expandRelationship_mk] at h
    split at h
    next holds =>
      have pinned : Selects [.relationship ⟨parent, assignment, children⟩ chosen] []
          (assignment.toList ++ []) (ofAxes children ++ []) := .follow _ holds .stop
      rw [List.append_nil] at pinned
      rcases bind_eq_error.mp h with hwrite | ⟨branch, hbranch, hbehind⟩
      · cases assignment with
        | none => cases hwrite
        | some write => exact ⟨[], [], write, _, document, pinned, rfl, hwrite⟩
      · rw [← Document.assignedAll_toList] at hbranch
        exact ((failsAlong_of_expandAxes children hbehind).append_right []).behind pinned hbranch
    next => cases h
end

/-! ## The main result -/

theorem permute_eq_error {axes : List Axis} {base : Document} {error : ExpansionError}
    (nonempty : axes ≠ []) (h : permute axes base = .error error) :
    ∃ fault, error = .access fault ∧ expandAxes axes base = .error fault := by
  rw [permute, if_neg (by simpa using nonempty)] at h
  cases hexpand : expandAxes axes base with
  | ok documents =>
    rw [hexpand] at h
    cases h
  | error fault =>
    rw [hexpand] at h
    cases h
    exact ⟨fault, rfl, rfl⟩

/-- **Errors of an expansion are genuine.** If there are axes, an expansion fails only where a value
cannot be written, and it reports the error with which the last write of some selection fails, all
writes before it having succeeded. A count fails only where it outgrows the counter. This is so at
every level: if each of them refused to work without axes, the same would come out. -/
theorem permute_fails_along_selection (axes : List Axis) (base : Document) (nonempty : axes ≠ []) :
    (∀ error, permute axes base = .error error →
      ∃ fault, error = .access fault ∧ fault.OfStep ∧
        ∃ selection before write after, Selection.Partial axes selection ∧
          selection.writes = before ++ [write] ∧ base.assignedAll before = .ok after ∧
          (after.replace write.path write.value).done = .error fault) ∧
    (∀ error, expectedCount axes = .error error → error = .countOverflow) ∧
    permuteByLevel axes base = permute axes base ∧ countByLevel axes = expectedCount axes := by
  refine ⟨?_, ?_, permuteByLevel_eq axes base, countByLevel_eq axes⟩
  · intro error h
    obtain ⟨fault, rfl, hexpand⟩ := permute_eq_error nonempty h
    obtain ⟨choices, before, write, left, after, hs, hbefore, hwrite⟩ :=
      failsAlong_of_expandAxes axes hexpand
    refine ⟨fault, rfl, Document.ofStep_of_replace hwrite, ?_⟩
    exact ⟨⟨choices, before ++ [write]⟩, before, write, after, ⟨left, hs⟩, rfl, hbefore, hwrite⟩
  · intro error h
    exact expectedCount_eq_error nonempty h

/-- The second candidate of an axis pins a value with nothing in it, and a child axis writes into it.
The branches of the first candidate have been made by then; the error is that of the third write of
the second. -/
theorem permute_fails_along_pinned :
    let child : Assignment := ⟨⟨.key "pool", [.key "size"]⟩, .text "large"⟩
    let axes : List Axis :=
      [⟨⟨.key "kind", []⟩, [.null, .text "shared"],
          [⟨.text "shared", some ⟨⟨.key "pool", []⟩, .null⟩, [⟨child.path, [child.value], []⟩]⟩]⟩,
        ⟨⟨.key "region", []⟩, [.null, .text "east"], []⟩]
    let base : Document := .mapping [("pool", .mapping [])]
    let fault : AccessError := .typeMismatch [.key "pool", .key "size"] .mapping .null
    axes ≠ [] ∧ permute axes base = .error (.access fault) ∧
      ∃ selection before write after, Selection.Partial axes selection ∧
        selection.writes = before ++ [write] ∧ base.assignedAll before = .ok after ∧
        (after.replace write.path write.value).done = .error fault := by
  intro child axes base fault
  have nonempty : axes ≠ [] := List.cons_ne_nil _ _
  have hfails : permute axes base = .error (.access fault) := rfl
  obtain ⟨hgenuine, -⟩ := permute_fails_along_selection axes base nonempty
  obtain ⟨fault', heq, -, hselection⟩ := hgenuine _ hfails
  cases heq
  exact ⟨nonempty, hfails, hselection⟩

end Variation
