import Variation.Axis.Expansion
import Variation.Proofs.Axis.Selection

/-!
# Expansion makes every selection

`permute` works level by level: it makes all branches of an axis before it looks at the next axis.
A selection runs down one branch to its end. The two agree on what is made, and on whether anything
is made, but not on the order of the work, so the steps below are compared where they succeed and
not where they fail.

`expandPending` is the expansion of whatever the machine of `Proofs.Axis.Selection` has before it.
Its two step lemmas, `expandPending_axis` and `expandPending_relationship`, say that it takes the
steps of the machine. The rest is one induction along these steps for each half of the main result:
`exists_expandPending_iff` for success, `map_expandPending` for the documents.
-/

namespace Variation

open Pending (ofAxes ofRelationships)

/-! ## Joined results -/

section Concat

variable {α β γ ε : Type}

/-- What comes of two steps comes of the first and then of the second. -/
theorem bind_eq_ok {step : Except ε α} {next : α → Except ε β} {out : β} :
    step.bind next = .ok out ↔ ∃ value, step = .ok value ∧ next value = .ok out := by
  cases step <;> simp [Except.bind]

theorem concatEach_cons (f : α → Except ε (List β)) (item : α) (rest : List α) :
    concatEach f (item :: rest)
      = (f item).bind fun parts => (concatEach f rest).bind fun more => .ok (parts ++ more) := by
  rw [concatEach]
  cases f item with
  | error e => rfl
  | ok parts => cases concatEach f rest <;> rfl

theorem concatEach_cons_eq_ok {f : α → Except ε (List β)} {item : α} {rest : List α}
    {out : List β} :
    concatEach f (item :: rest) = .ok out ↔
      ∃ parts more, f item = .ok parts ∧ concatEach f rest = .ok more ∧ parts ++ more = out := by
  simp [concatEach_cons, bind_eq_ok]

theorem concatEach_append_eq_ok {f : α → Except ε (List β)} {first second : List α}
    {out : List β} :
    concatEach f (first ++ second) = .ok out ↔
      ∃ parts more, concatEach f first = .ok parts ∧ concatEach f second = .ok more ∧
        parts ++ more = out := by
  induction first generalizing out with
  | nil => simp [concatEach]
  | cons item rest ih =>
    simp only [List.cons_append, concatEach_cons_eq_ok, ih]
    constructor
    · rintro ⟨a, _, ha, ⟨b, c, hb, hc, rfl⟩, rfl⟩
      exact ⟨a ++ b, c, ⟨a, b, ha, hb, rfl⟩, hc, List.append_assoc a b c⟩
    · rintro ⟨_, c, ⟨a, b, ha, hb, rfl⟩, hc, rfl⟩
      exact ⟨a, b ++ c, ha, ⟨b, c, hb, hc, rfl⟩, (List.append_assoc a b c).symm⟩

theorem concatEach_singleton (f : α → Except ε (List β)) (item : α) :
    concatEach f [item] = f item := by
  rw [concatEach_cons]
  cases f item <;> simp [concatEach, Except.bind]

theorem concatEach_ok_singleton (items : List α) :
    concatEach (fun item => (.ok [item] : Except ε (List α))) items = .ok items := by
  induction items with
  | nil => rfl
  | cons item rest ih => rw [concatEach_cons, ih]; rfl

/-- Two passes over a list come to one, if they succeed. They do not fail alike: two passes report
what the first finds anywhere before what the second finds. -/
theorem concatEach_concatEach {f : α → Except ε (List β)} {g : β → Except ε (List γ)}
    {items : List α} {out : List γ} :
    (concatEach f items).bind (concatEach g) = .ok out ↔
      concatEach (fun item => (f item).bind (concatEach g)) items = .ok out := by
  induction items generalizing out with
  | nil => simp [concatEach, bind_eq_ok]
  | cons item rest ih =>
    simp only [bind_eq_ok] at ih
    simp only [bind_eq_ok, concatEach_cons_eq_ok]
    constructor
    · rintro ⟨_, ⟨middle, more, hf, hrest, rfl⟩, hg⟩
      obtain ⟨first, second, hfirst, hsecond, rfl⟩ := concatEach_append_eq_ok.mp hg
      exact ⟨first, second, ⟨middle, hf, hfirst⟩, ih.mp ⟨more, hrest, hsecond⟩, rfl⟩
    · rintro ⟨first, second, ⟨middle, hf, hfirst⟩, hrest, rfl⟩
      obtain ⟨more, hmore, hsecond⟩ := ih.mpr hrest
      exact ⟨middle ++ more, ⟨middle, more, hf, hmore, rfl⟩,
        concatEach_append_eq_ok.mpr ⟨first, second, hfirst, hsecond, rfl⟩⟩

theorem concatEach_congr_ok {f g : α → Except ε (List β)}
    (h : ∀ item parts, f item = .ok parts ↔ g item = .ok parts) {items : List α} {out : List β} :
    concatEach f items = .ok out ↔ concatEach g items = .ok out := by
  induction items generalizing out with
  | nil => rfl
  | cons item rest ih => simp only [concatEach_cons_eq_ok, h, ih]

theorem exists_concatEach_iff {f : α → Except ε (List β)} {items : List α} :
    (∃ out, concatEach f items = .ok out) ↔ ∀ item ∈ items, ∃ parts, f item = .ok parts := by
  induction items with
  | nil => simp [concatEach]
  | cons item rest ih =>
    rw [List.forall_mem_cons, ← ih]
    simp only [concatEach_cons_eq_ok]
    constructor
    · rintro ⟨_, parts, more, hparts, hmore, _⟩
      exact ⟨⟨parts, hparts⟩, ⟨more, hmore⟩⟩
    · rintro ⟨⟨parts, hparts⟩, ⟨more, hmore⟩⟩
      exact ⟨_, parts, more, hparts, hmore, rfl⟩

/-- What is seen of the whole is what is seen of its parts, in order. -/
theorem map_concatEach {f : α → Except ε (List β)} {items : List α} {out : List β}
    (h : concatEach f items = .ok out) (view : β → γ) (seen : α → List γ)
    (hview : ∀ item parts, f item = .ok parts → parts.map view = seen item) :
    out.map view = items.flatMap seen := by
  induction items generalizing out with
  | nil => cases h; rfl
  | cons item rest ih =>
    obtain ⟨parts, more, hparts, hmore, rfl⟩ := concatEach_cons_eq_ok.mp h
    rw [List.map_append, List.flatMap_cons, hview item parts hparts, ih hmore]

end Concat

/-! ## Writes in turn -/

namespace Document

/-- The document with assignments made one after the other. -/
def assignedAll (document : Document) : List Assignment → Except AccessError Document
  | [] => .ok document
  | first :: rest =>
    (document.replace first.path first.value).done.bind fun after => after.assignedAll rest

theorem assignedAll_singleton (document : Document) (assignment : Assignment) :
    document.assignedAll [assignment]
      = (document.replace assignment.path assignment.value).done := by
  simp only [assignedAll]
  cases (document.replace assignment.path assignment.value).done <;> rfl

theorem assignedAll_append (document : Document) (front back : List Assignment) :
    document.assignedAll (front ++ back)
      = (document.assignedAll front).bind fun after => after.assignedAll back := by
  induction front generalizing document with
  | nil => rfl
  | cons first rest ih =>
    simp only [List.cons_append, assignedAll]
    cases (document.replace first.path first.value).done with
    | error e => rfl
    | ok after => exact ih after

theorem assignedAll_toList (document : Document) (assignment : Option Assignment) :
    document.assignedAll assignment.toList = document.assigned assignment := by
  cases assignment with
  | none => rfl
  | some assignment => exact document.assignedAll_singleton assignment

end Document

/-! ## Expansion of what is pending -/

def Pending.expand : Pending → Document → Except AccessError (List Document)
  | .axis first, document => expandAxis first document
  | .relationship first chosen, document => expandRelationship first chosen document

/-- The documents that all that is pending makes of a document. -/
def expandPending : List Pending → Document → Except AccessError (List Document)
  | [], document => .ok [document]
  | next :: todo, document => (next.expand document).bind (concatEach (expandPending todo))

theorem expandAxes_cons (axis : Axis) (rest : List Axis) (document : Document) :
    expandAxes (axis :: rest) document
      = (expandAxis axis document).bind (concatEach (expandAxes rest)) := by
  rw [expandAxes]
  cases expandAxis axis document <;> rfl

theorem expandAxis_mk (path : KeyPath) (candidates : List Document)
    (relationships : List Relationship) (document : Document) :
    expandAxis ⟨path, candidates, relationships⟩ document
      = concatEach (fun chosen => (document.replace path chosen).done.bind
          (expandRelationships relationships chosen)) candidates := by
  rw [expandAxis]
  congr 1
  funext chosen
  cases (document.replace path chosen).done <;> rfl

theorem expandRelationships_cons (relationship : Relationship) (rest : List Relationship)
    (chosen document : Document) :
    expandRelationships (relationship :: rest) chosen document
      = (expandRelationship relationship chosen document).bind
          (concatEach (expandRelationships rest chosen)) := by
  rw [expandRelationships]
  cases expandRelationship relationship chosen document <;> rfl

theorem expandRelationship_mk (parent chosen : Document) (assignment : Option Assignment)
    (children : List Axis) (document : Document) :
    expandRelationship ⟨parent, assignment, children⟩ chosen document
      = if parent.same chosen then (document.assigned assignment).bind (expandAxes children)
        else .ok [document] := by
  rw [expandRelationship]
  cases document.assigned assignment <;> rfl

theorem expandPending_ofAxes (axes : List Axis) :
    expandPending (ofAxes axes) = expandAxes axes := by
  funext document
  induction axes generalizing document with
  | nil => rfl
  | cons axis rest ih =>
    rw [expandAxes_cons, ← funext ih]
    rfl

theorem expandPending_ofRelationships (relationships : List Relationship) (chosen : Document) :
    expandPending (ofRelationships relationships chosen)
      = expandRelationships relationships chosen := by
  funext document
  induction relationships generalizing document with
  | nil => rfl
  | cons relationship rest ih =>
    rw [expandRelationships_cons, ← funext ih]
    rfl

theorem expandPending_singleton (next : Pending) (document : Document) :
    expandPending [next] document = next.expand document := by
  rw [expandPending]
  cases next.expand document with
  | error e => rfl
  | ok branches => exact concatEach_ok_singleton branches

/-- What stands further back works on the branches of what stands in front. -/
theorem expandPending_append_eq_ok {front back : List Pending} {document : Document}
    {documents : List Document} :
    expandPending (front ++ back) document = .ok documents ↔
      (expandPending front document).bind (concatEach (expandPending back)) = .ok documents := by
  induction front generalizing document documents with
  | nil => simp [expandPending, Except.bind, concatEach_singleton]
  | cons next rest ih =>
    -- On every branch `rest` and `back` may follow one another; two passes over the branches do.
    have each : ∀ branches, concatEach (expandPending (rest ++ back)) branches = .ok documents ↔
        (concatEach (expandPending rest) branches).bind (concatEach (expandPending back))
          = .ok documents :=
      fun _ => (concatEach_congr_ok fun _ _ => ih).trans concatEach_concatEach.symm
    rw [List.cons_append, expandPending, expandPending]
    cases next.expand document with
    | error e => exact Iff.rfl
    | ok branches => exact each branches

/-- **The step at an axis.** -/
theorem expandPending_axis {path : KeyPath} {candidates : List Document}
    {relationships : List Relationship} {todo : List Pending} {document : Document}
    {documents : List Document} :
    expandPending (.axis ⟨path, candidates, relationships⟩ :: todo) document = .ok documents ↔
      concatEach (fun chosen => (document.assignedAll [⟨path, chosen⟩]).bind
        (expandPending (ofRelationships relationships chosen ++ todo))) candidates
          = .ok documents := by
  rw [expandPending, Pending.expand, expandAxis_mk, concatEach_concatEach]
  refine concatEach_congr_ok fun chosen parts => ?_
  rw [Document.assignedAll_singleton]
  cases (document.replace path chosen).done with
  | error e => exact Iff.rfl
  | ok branch =>
    simp only [Except.bind]
    rw [expandPending_append_eq_ok, expandPending_ofRelationships]
    exact Iff.rfl

/-- **The step at a relationship that holds.** -/
theorem expandPending_of_holds {parent chosen : Document} {assignment : Option Assignment}
    {children : List Axis} {todo : List Pending} {document : Document}
    {documents : List Document} (holds : parent.same chosen = true) :
    expandPending (.relationship ⟨parent, assignment, children⟩ chosen :: todo) document
        = .ok documents ↔
      (document.assignedAll assignment.toList).bind (expandPending (ofAxes children ++ todo))
        = .ok documents := by
  rw [expandPending, Pending.expand, expandRelationship_mk, if_pos holds,
    Document.assignedAll_toList]
  cases document.assigned assignment with
  | error e => exact Iff.rfl
  | ok branch =>
    simp only [Except.bind]
    rw [expandPending_append_eq_ok, expandPending_ofAxes]
    exact Iff.rfl

/-- **The step at a relationship that does not hold.** -/
theorem expandPending_of_fails {parent chosen : Document} {assignment : Option Assignment}
    {children : List Axis} {todo : List Pending} {document : Document}
    (fails : parent.same chosen = false) :
    expandPending (.relationship ⟨parent, assignment, children⟩ chosen :: todo) document
      = expandPending todo document := by
  rw [expandPending, Pending.expand, expandRelationship_mk, if_neg (by simp [fails])]
  exact concatEach_singleton _ _

/-! ## The two halves of the comparison -/

/-- Writes in front of an expansion are writes in front of every selection. That the writes in front
succeed by themselves is the case of the selection that stops at once. -/
theorem exists_expandPending_after {todo : List Pending} {front : List Assignment}
    {document : Document}
    (h : ∀ {branch}, (∃ documents, expandPending todo branch = .ok documents) ↔
      ∀ choices writes left, Selects todo choices writes left →
        ∃ after, branch.assignedAll writes = .ok after) :
    (∃ documents, (document.assignedAll front).bind (expandPending todo) = .ok documents) ↔
      ∀ choices writes left, Selects todo choices writes left →
        ∃ after, document.assignedAll (front ++ writes) = .ok after := by
  simp only [Document.assignedAll_append]
  cases hf : document.assignedAll front with
  | error e =>
    refine ⟨fun h => ?_, fun hs => ?_⟩
    · obtain ⟨_, hd⟩ := h
      cases hd
    · obtain ⟨_, ha⟩ := hs [] [] todo .stop
      cases ha
  | ok branch => exact h

/-- **Success.** Expansion succeeds if every selection can be written, gone any part of the way. -/
theorem exists_expandPending_iff {todo : List Pending} {document : Document} :
    (∃ documents, expandPending todo document = .ok documents) ↔
      ∀ choices writes left, Selects todo choices writes left →
        ∃ after, document.assignedAll writes = .ok after := by
  induction todo using Pending.induction generalizing document with
  | nil =>
    refine ⟨fun _ choices writes left h => ?_, fun _ => ⟨[document], rfl⟩⟩
    obtain ⟨_, rfl, _⟩ := selects_nil_iff.mp h
    exact ⟨document, rfl⟩
  | axis path candidates relationships todo ih =>
    simp only [expandPending_axis, exists_concatEach_iff, exists_expandPending_after (ih _)]
    constructor
    · intro h choices writes left hs
      rcases selects_axis_iff.mp hs with
        ⟨_, rfl, _⟩ | ⟨position, chosen, choices', writes', candidate, rfl, rfl, after⟩
      · exact ⟨document, rfl⟩
      · exact h chosen (List.mem_of_getElem? candidate) choices' writes' left after
    · intro h chosen hc choices writes left after
      obtain ⟨position, candidate⟩ := List.mem_iff_getElem?.mp hc
      exact h _ _ _ (.choose candidate after)
  | relationship parent assignment children chosen todo ihChildren ihTodo =>
    cases holds : parent.same chosen with
    | false =>
      simp only [expandPending_of_fails holds, ihTodo]
      constructor
      · intro h choices writes left hs
        rcases (selects_relationship_of_fails holds).mp hs with ⟨_, rfl, _⟩ | after
        · exact ⟨document, rfl⟩
        · exact h _ _ _ after
      · exact fun h choices writes left after => h _ _ _ (.pass holds after)
    | true =>
      simp only [expandPending_of_holds holds, exists_expandPending_after ihChildren]
      constructor
      · intro h choices writes left hs
        rcases (selects_relationship_of_holds holds).mp hs with ⟨_, rfl, _⟩ | ⟨writes', rfl, after⟩
        · exact ⟨document, rfl⟩
        · exact h _ _ _ after
      · intro h choices writes left after
        exact h _ _ _ (.follow ⟨parent, assignment, children⟩ holds after)

/-- Behind writes in front of an expansion stands what the writes leave. -/
theorem map_expandPending_after {todo : List Pending} {front : List Assignment}
    {document : Document} {documents : List Document}
    (h : ∀ {branch documents}, expandPending todo branch = .ok documents →
      documents.map .ok = (selections todo).map fun s => branch.assignedAll s.writes)
    (hd : (document.assignedAll front).bind (expandPending todo) = .ok documents) :
    documents.map .ok
      = (selections todo).map fun s => document.assignedAll (front ++ s.writes) := by
  simp only [Document.assignedAll_append]
  cases hf : document.assignedAll front with
  | error e => rw [hf] at hd; cases hd
  | ok branch => rw [hf] at hd; exact h hd

/-- **Documents.** Expansion makes one document of every complete selection, in order. -/
theorem map_expandPending {todo : List Pending} {document : Document} {documents : List Document}
    (h : expandPending todo document = .ok documents) :
    documents.map .ok = (selections todo).map fun s => document.assignedAll s.writes := by
  induction todo using Pending.induction generalizing document documents with
  | nil => cases h; rfl
  | axis path candidates relationships todo ih =>
    have hseen := map_concatEach (expandPending_axis.mp h) Except.ok _
      fun chosen _ hp => map_expandPending_after (ih chosen) hp
    -- The positions of the candidates are choices, of which the writes know nothing.
    rw [← List.zipIdx_map_fst 0 candidates, List.flatMap_map] at hseen
    rw [hseen, selections_axis, List.map_flatMap]
    simp only [List.map_map]
    rfl
  | relationship parent assignment children chosen todo ihChildren ihTodo =>
    rw [selections_relationship]
    split
    next holds =>
      rw [map_expandPending_after ihChildren ((expandPending_of_holds holds).mp h), List.map_map]
      rfl
    next fails =>
      rw [expandPending_of_fails (by simpa using fails)] at h
      exact ihTodo h

theorem exists_selects_of_mem {todo : List Pending} {document branch : Document}
    {documents : List Document} (h : expandPending todo document = .ok documents)
    (member : branch ∈ documents) :
    ∃ choices writes, Selects todo choices writes [] ∧ document.assignedAll writes = .ok branch := by
  have hmem : (.ok branch : Except AccessError Document) ∈ documents.map .ok :=
    List.mem_map_of_mem member
  rw [map_expandPending h] at hmem
  obtain ⟨selection, hs, hwrites⟩ := List.mem_map.mp hmem
  exact ⟨selection.choices, selection.writes, mem_selections_iff.mp hs, hwrites⟩

/-- There are documents if some selection comes to its end. -/
theorem leads_nil_iff {todo : List Pending} {document : Document} {documents : List Document}
    (h : expandPending todo document = .ok documents) : Leads todo [] ↔ documents ≠ [] := by
  have hlength := congrArg List.length (map_expandPending h)
  rw [List.length_map, List.length_map] at hlength
  rw [← List.length_pos_iff, hlength, List.length_pos_iff]
  constructor
  · rintro ⟨choices, writes, hs⟩
    exact List.ne_nil_of_mem (a := ⟨choices, writes⟩) (mem_selections_iff.mpr hs)
  · intro nonempty
    obtain ⟨selection, hs⟩ := List.exists_mem_of_ne_nil _ nonempty
    exact ⟨selection.choices, selection.writes, mem_selections_iff.mp hs⟩

/-! ## Expansion and selections -/

theorem permute_eq_ok {axes : List Axis} {base : Document} {documents : List Document}
    (nonempty : axes ≠ []) :
    permute axes base = .ok documents ↔ expandPending (ofAxes axes) base = .ok documents := by
  rw [permute, if_neg (by simpa using nonempty), expandPending_ofAxes]
  cases expandAxes axes base <;> simp

/-- **Expansion makes every selection.** Axes expand if every selection of theirs can be written, be
it complete or not, and then the documents are the base document with the complete selections
written, one for each, in the lexicographic order of the choices. -/
theorem permute_makes_selections (axes : List Axis) (base : Document) (nonempty : axes ≠ []) :
    ((∃ documents, permute axes base = .ok documents) ↔
      ∀ selection, Selection.Partial axes selection →
        ∃ after, base.assignedAll selection.writes = .ok after) ∧
    ∀ documents, permute axes base = .ok documents →
      ∃ listed : List Selection,
        listed.Pairwise (·.choices < ·.choices) ∧
        (∀ selection, selection ∈ listed ↔ Selection.Complete axes selection) ∧
        documents.map .ok = listed.map fun selection => base.assignedAll selection.writes := by
  simp only [permute_eq_ok nonempty]
  refine ⟨exists_expandPending_iff.trans ⟨?_, ?_⟩, fun documents h => ?_⟩
  · rintro h ⟨choices, writes⟩ ⟨left, hs⟩
    exact h choices writes left hs
  · intro h choices writes left hs
    exact h ⟨choices, writes⟩ ⟨left, hs⟩
  · exact ⟨selections (ofAxes axes), pairwise_selections _, fun _ => mem_selections_iff,
      map_expandPending h⟩

/-- An axis of two candidates, one of which brings in two more, and a second axis that overwrites what
the first has assigned. -/
theorem permute_makes_six_selections :
    let axes : List Axis :=
      [⟨⟨.key "a", []⟩, [.boolean true, .null],
          [⟨.boolean true, some ⟨⟨.key "b", []⟩, .null⟩,
            [⟨⟨.key "c", []⟩, [.null, .text "x"], []⟩]⟩]⟩,
        ⟨⟨.key "b", []⟩, [.boolean false, .text "y"], []⟩]
    axes ≠ [] ∧
      (∀ selection, Selection.Partial axes selection →
        ∃ after, (Document.mapping []).assignedAll selection.writes = .ok after) ∧
      ∃ listed : List Selection, listed.length = 6 ∧
        ∀ selection, selection ∈ listed ↔ Selection.Complete axes selection := by
  intro axes
  have nonempty : axes ≠ [] := List.cons_ne_nil _ _
  obtain ⟨succeeds, documents⟩ := permute_makes_selections axes (.mapping []) nonempty
  obtain ⟨listed, _, complete, made⟩ := documents _ rfl
  refine ⟨nonempty, succeeds.mp ⟨_, rfl⟩, listed, ?_, complete⟩
  have hlength := congrArg List.length made
  rw [List.length_map, List.length_map] at hlength
  exact hlength.symm

end Variation
