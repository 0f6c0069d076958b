import Variation.Proofs.Axis.Count

/-!
# The branches that are made on the way

An expansion holds more than the documents that it ends with: whenever axes are gone through, all
branches of the first one are there before the next axis is looked at. `recordAxes` is the expansion
with these lists kept, those of a run that fails included; `result_recordAxes` says that keeping them
changes nothing else.

`Leads` of `Proofs.Axis.Selection` says which axes a selection comes to. Every list that is kept is
that of such an axis (`branchesOf_recordAxes`), and where the expansion succeeds every such axis has
its list (`covers_recordAxes`). An axis has no more branches than the whole has documents, as long as
a selection comes through what lies behind the axis (`branchCount_le_of_leads_nil`). Nothing bounds
its branches otherwise: an axis without candidates makes the count zero and leaves the branches of
the axes before it as they are.
-/

namespace Variation

open Pending (ofAxes ofRelationships)

/-! ## Runs with a record -/

/-- What a run ends with and the lists of branches that it has made. -/
structure Recorded (α : Type) where
  lists : List (List Document)
  result : Except AccessError α

namespace Recorded

variable {α β : Type}

def of (result : Except AccessError α) : Recorded α :=
  ⟨[], result⟩

/-- One run and then another, unless the first fails. -/
def bind (first : Recorded α) (next : α → Recorded β) : Recorded β :=
  match first.result with
  | .error e => ⟨first.lists, .error e⟩
  | .ok value => ⟨first.lists ++ (next value).lists, (next value).result⟩

/-- A run that makes a list of branches, with this list recorded. -/
def noted (run : Recorded (List Document)) : Recorded (List Document) :=
  run.bind fun branches => ⟨[branches], .ok branches⟩

@[simp] theorem result_of (result : Except AccessError α) : (of result).result = result := rfl

@[simp] theorem result_bind (first : Recorded α) (next : α → Recorded β) :
    (first.bind next).result = first.result.bind fun value => (next value).result := by
  rw [bind]
  cases first.result <;> rfl

@[simp] theorem result_noted (run : Recorded (List Document)) : run.noted.result = run.result := by
  rw [noted, result_bind]
  cases run.result <;> rfl

/-- A list of two runs is one of the first or, if there is one, of the second. -/
theorem mem_lists_bind {first : Recorded α} {next : α → Recorded β} {branches : List Document} :
    branches ∈ (first.bind next).lists ↔
      branches ∈ first.lists ∨ ∃ value, first.result = .ok value ∧ branches ∈ (next value).lists := by
  rw [bind]
  cases first.result <;> simp

theorem mem_lists_noted {run : Recorded (List Document)} {branches : List Document} :
    branches ∈ run.noted.lists ↔ branches ∈ run.lists ∨ run.result = .ok branches := by
  rw [noted, mem_lists_bind]
  simp

end Recorded

/-- `concatEach` with a record. -/
def recordEach {α β : Type} (f : α → Recorded (List β)) : List α → Recorded (List β)
  | [] => .of (.ok [])
  | item :: rest =>
    (f item).bind fun parts => (recordEach f rest).bind fun more => .of (.ok (parts ++ more))

mutual
/-- `expandAxes` with a record. The branches of an axis are noted where axes are gone through, and
nowhere else. -/
def recordAxes : List Axis → Document → Recorded (List Document)
  | [], document => .of (.ok [document])
  | axis :: rest, document =>
    (recordAxis axis document).noted.bind (recordEach fun branch => recordAxes rest branch)

def recordAxis : Axis → Document → Recorded (List Document)
  | ⟨path, candidates, relationships⟩, document =>
    recordEach
      (fun chosen => (Recorded.of (document.replace path chosen).done).bind
        fun branch => recordRelationships relationships chosen branch)
      candidates

def recordRelationships : List Relationship → Document → Document → Recorded (List Document)
  | [], _, document => .of (.ok [document])
  | relationship :: rest, chosen, document =>
    (recordRelationship relationship chosen document).bind
      (recordEach fun branch => recordRelationships rest chosen branch)

def recordRelationship : Relationship → Document → Document → Recorded (List Document)
  | ⟨parent, assignment, children⟩, chosen, document =>
    if parent.same chosen then
      (Recorded.of (document.assigned assignment)).bind fun branch => recordAxes children branch
    else .of (.ok [document])
end

/-- The lists of branches that axes make of a document, in the order in which they are made. -/
def branchLists (axes : List Axis) (base : Document) : List (List Document) :=
  (recordAxes axes base).lists

/-! ## The record changes nothing -/

theorem result_recordEach {α β : Type} {f : α → Recorded (List β)}
    {g : α → Except AccessError (List β)} (h : ∀ item, (f item).result = g item) (items : List α) :
    (recordEach f items).result = concatEach g items := by
  induction items with
  | nil => rfl
  | cons item rest ih => simp [recordEach, concatEach_cons, h, ih]

mutual
/-- What a run with a record ends with is the expansion. -/
theorem result_recordAxes : ∀ (axes : List Axis) (document : Document),
    (recordAxes axes document).result = expandAxes axes document
  | [], _ => rfl
  | axis :: rest, document => by
    rw [recordAxes, expandAxes_cons, Recorded.result_bind, Recorded.result_noted,
      result_recordAxis axis document]
    congr 1
    funext branches
    exact result_recordEach (result_recordAxes rest) branches

theorem result_recordAxis : ∀ (axis : Axis) (document : Document),
    (recordAxis axis document).result = expandAxis axis document
  | ⟨path, candidates, relationships⟩, document => by
    rw [recordAxis, expandAxis_mk]
    refine result_recordEach (fun chosen => ?_) candidates
    rw [Recorded.result_bind, Recorded.result_of]
    congr 1
    funext branch
    exact result_recordRelationships relationships chosen branch

theorem result_recordRelationships : ∀ (relationships : List Relationship)
    (chosen document : Document),
    (recordRelationships relationships chosen document).result
      = expandRelationships relationships chosen document
  | [], _, _ => rfl
  | relationship :: rest, chosen, document => by
    rw [recordRelationships, expandRelationships_cons, Recorded.result_bind,
      result_recordRelationship relationship chosen document]
    congr 1
    funext branches
    exact result_recordEach (result_recordRelationships rest chosen) branches

theorem result_recordRelationship : ∀ (relationship : Relationship) (chosen document : Document),
    (recordRelationship relationship chosen document).result
      = expandRelationship relationship chosen document
  | ⟨parent, assignment, children⟩, chosen, document => by
    rw [recordRelationship, expandRelationship_mk]
    split
    · rw [Recorded.result_bind, Recorded.result_of]
      congr 1
      funext branch
      exact result_recordAxes children branch
    · rfl
end

/-! ## Whose branches are recorded -/

/-- A list of a run over elements has been made at one of them. -/
theorem mem_lists_recordEach {α β : Type} {f : α → Recorded (List β)} {items : List α}
    {branches : List Document} (h : branches ∈ (recordEach f items).lists) :
    ∃ item ∈ items, branches ∈ (f item).lists := by
  induction items with
  | nil => cases h
  | cons item rest ih =>
    rw [recordEach, Recorded.mem_lists_bind] at h
    rcases h with h | ⟨parts, _, h⟩
    · exact ⟨item, List.mem_cons_self, h⟩
    · rcases Recorded.mem_lists_bind.mp h with h | ⟨_, _, h⟩
      · obtain ⟨item', hi, h⟩ := ih h
        exact ⟨item', List.mem_cons_of_mem item hi, h⟩
      · cases h

/-- The branches are as many as an axis has that some selection comes to. -/
def BranchesOf (todo : List Pending) (branches : List Document) : Prop :=
  ∃ axis left, Leads todo (.axis axis :: left) ∧ branches.length = axis.branchCount

section Sequence

variable {run : Recorded (List Document)} {f : Document → Recorded (List Document)}
  {document : Document} {todo : List Pending}

/-- Behind the next thing are lists only if it has made a branch, and then a selection has come
through it. -/
theorem BranchesOf.of_mem_bind (next : Pending) {branches : List Document}
    (hrun : run.result = next.expand document)
    (hnext : ∀ {branches}, branches ∈ run.lists → BranchesOf [next] branches)
    (htodo : ∀ {branch branches}, branches ∈ (f branch).lists → BranchesOf todo branches)
    (h : branches ∈ (run.bind (recordEach f)).lists) : BranchesOf (next :: todo) branches := by
  rcases Recorded.mem_lists_bind.mp h with h | ⟨made, hmade, h⟩
  · obtain ⟨axis, left, hl, hlength⟩ := hnext h
    exact ⟨axis, left ++ todo, hl.append_right todo, hlength⟩
  · obtain ⟨branch, hb, h⟩ := mem_lists_recordEach h
    obtain ⟨axis, left, hl, hlength⟩ := htodo h
    rw [hrun, ← expandPending_singleton] at hmade
    have through : Leads [next] [] := (leads_nil_iff hmade).mpr (List.ne_nil_of_mem hb)
    exact ⟨axis, left, through.append hl, hlength⟩

end Sequence

mutual
/-- **Every list that is recorded is that of an axis that some selection comes to.** -/
theorem branchesOf_recordAxes : ∀ (axes : List Axis) {document : Document}
    {branches : List Document},
    branches ∈ (recordAxes axes document).lists → BranchesOf (ofAxes axes) branches
  | [], _, _, h => by cases h
  | axis :: rest, document, branches, h => by
    rw [recordAxes] at h
    have hrun := (Recorded.result_noted _).trans (result_recordAxis axis document)
    exact .of_mem_bind (.axis axis) hrun (branchesOf_recordAxis axis)
      (branchesOf_recordAxes rest) h

theorem branchesOf_recordAxis : ∀ (axis : Axis) {document : Document} {branches : List Document},
    branches ∈ (recordAxis axis document).noted.lists → BranchesOf [.axis axis] branches
  | ⟨path, candidates, relationships⟩, document, branches, h => by
    rcases Recorded.mem_lists_noted.mp h with h | h
    · rw [recordAxis] at h
      obtain ⟨chosen, hc, h⟩ := mem_lists_recordEach h
      rcases Recorded.mem_lists_bind.mp h with h | ⟨branch, _, h⟩
      · cases h
      · obtain ⟨axis, left, hl, hlength⟩ := branchesOf_recordRelationships relationships h
        refine ⟨axis, left, .choose hc ?_, hlength⟩
        rwa [List.append_nil]
    · rw [result_recordAxis] at h
      exact ⟨_, [], .refl _, length_expandAxis _ h⟩

theorem branchesOf_recordRelationships : ∀ (relationships : List Relationship)
    {chosen document : Document} {branches : List Document},
    branches ∈ (recordRelationships relationships chosen document).lists →
      BranchesOf (ofRelationships relationships chosen) branches
  | [], _, _, _, h => by cases h
  | relationship :: rest, chosen, document, branches, h => by
    rw [recordRelationships] at h
    exact .of_mem_bind (.relationship relationship chosen)
      (result_recordRelationship relationship chosen document)
      (branchesOf_recordRelationship relationship) (branchesOf_recordRelationships rest) h

theorem branchesOf_recordRelationship : ∀ (relationship : Relationship)
    {chosen document : Document} {branches : List Document},
    branches ∈ (recordRelationship relationship chosen document).lists →
      BranchesOf [.relationship relationship chosen] branches
  | ⟨parent, assignment, children⟩, chosen, document, branches, h => by
    rw [recordRelationship] at h
    split at h
    next holds =>
      rcases Recorded.mem_lists_bind.mp h with h | ⟨branch, _, h⟩
      · cases h
      · obtain ⟨axis, left, hl, hlength⟩ := branchesOf_recordAxes children h
        refine ⟨axis, left, .follow holds ?_, hlength⟩
        rwa [List.append_nil]
    next => cases h
end

/-! ## Whose branches are there in the end -/

/-- A run over elements that succeeds has come to each of them, and has all their lists. -/
theorem mem_lists_recordEach_of_ok {α β : Type} {f : α → Recorded (List β)} {items : List α}
    {out : List β} (hout : (recordEach f items).result = .ok out) {item : α} (hi : item ∈ items) :
    (∃ parts, (f item).result = .ok parts) ∧
      ∀ branches ∈ (f item).lists, branches ∈ (recordEach f items).lists := by
  induction items generalizing out with
  | nil => cases hi
  | cons first rest ih =>
    rw [recordEach, Recorded.result_bind] at hout
    obtain ⟨parts, hparts, hout⟩ := bind_eq_ok.mp hout
    rw [Recorded.result_bind] at hout
    obtain ⟨more, hmore, _⟩ := bind_eq_ok.mp hout
    rw [recordEach]
    rcases List.mem_cons.mp hi with rfl | hi
    · exact ⟨⟨parts, hparts⟩, fun branches h => Recorded.mem_lists_bind.mpr (.inl h)⟩
    · obtain ⟨hok, hmem⟩ := ih hmore hi
      exact ⟨hok, fun branches h => Recorded.mem_lists_bind.mpr (.inr ⟨parts, hparts,
        Recorded.mem_lists_bind.mpr (.inl (hmem branches h))⟩)⟩

/-- Every axis that some selection comes to has its branches among the lists. -/
def Covers (lists : List (List Document)) (todo : List Pending) : Prop :=
  ∀ axis left, Leads todo (.axis axis :: left) →
    ∃ branches ∈ lists, branches.length = axis.branchCount

theorem Covers.nil {lists : List (List Document)} : Covers lists [] := by
  rintro axis left ⟨choices, writes, hs⟩
  cases (selects_nil_iff.mp hs).2.2

section Sequence

variable {run : Recorded (List Document)} {f : Document → Recorded (List Document)}
  {document : Document} {todo : List Pending}

/-- A selection that has come through the next thing has taken it through some branch, and behind
that branch are the lists. -/
theorem Covers.bind (next : Pending) {documents : List Document}
    (hrun : run.result = next.expand document)
    (hnext : ∀ {made}, run.result = .ok made → Covers run.lists [next])
    (htodo : ∀ {branch parts}, (f branch).result = .ok parts → Covers (f branch).lists todo)
    (h : (run.bind (recordEach f)).result = .ok documents) :
    Covers (run.bind (recordEach f)).lists (next :: todo) := by
  intro axis left hl
  rw [Recorded.result_bind] at h
  obtain ⟨made, hmade, hout⟩ := bind_eq_ok.mp h
  -- The axis belongs to the next thing, or a selection has come through that and left a branch.
  rcases Leads.of_append [next] hl with ⟨_, rest, hfirst, hleft⟩ | ⟨through, hrest⟩
  · cases hleft
    obtain ⟨branches, hb, hlength⟩ := hnext hmade axis rest hfirst
    exact ⟨branches, Recorded.mem_lists_bind.mpr (.inl hb), hlength⟩
  · have hexpand := hmade
    rw [hrun, ← expandPending_singleton] at hexpand
    obtain ⟨branch, hbranch⟩ := List.exists_mem_of_ne_nil made ((leads_nil_iff hexpand).mp through)
    obtain ⟨⟨parts, hparts⟩, hsub⟩ := mem_lists_recordEach_of_ok hout hbranch
    obtain ⟨branches, hb, hlength⟩ := htodo hparts axis left hrest
    exact ⟨branches, Recorded.mem_lists_bind.mpr (.inr ⟨made, hmade, hsub branches hb⟩), hlength⟩

end Sequence

mutual
/-- **Where the expansion succeeds every axis that some selection comes to has its list.** -/
theorem covers_recordAxes : ∀ (axes : List Axis) {document : Document} {documents : List Document},
    (recordAxes axes document).result = .ok documents →
      Covers (recordAxes axes document).lists (ofAxes axes)
  | [], _, _, _ => .nil
  | axis :: rest, document, documents, h => by
    rw [recordAxes] at h ⊢
    have hrun := (Recorded.result_noted _).trans (result_recordAxis axis document)
    exact .bind (.axis axis) hrun (covers_recordAxis axis) (covers_recordAxes rest) h

theorem covers_recordAxis : ∀ (axis : Axis) {document : Document} {made : List Document},
    (recordAxis axis document).noted.result = .ok made →
      Covers (recordAxis axis document).noted.lists [.axis axis]
  | ⟨path, candidates, relationships⟩, document, made, h => by
    rw [Recorded.result_noted] at h
    rintro axis left ⟨choices, writes, hs⟩
    rcases selects_axis_iff.mp hs with
      ⟨_, _, hleft⟩ | ⟨position, chosen, choices', writes', candidate, _, _, after⟩
    · -- The selection stands in front of the axis itself.
      cases hleft
      refine ⟨made, Recorded.mem_lists_noted.mpr (.inr h), ?_⟩
      rw [result_recordAxis] at h
      exact length_expandAxis _ h
    · rw [recordAxis] at h ⊢
      have member := List.mem_of_getElem? candidate
      obtain ⟨⟨parts, hparts⟩, hsub⟩ := mem_lists_recordEach_of_ok h member
      rw [Recorded.result_bind] at hparts
      obtain ⟨branch, hbranch, hparts⟩ := bind_eq_ok.mp hparts
      rw [List.append_nil] at after
      obtain ⟨branches, hb, hlength⟩ :=
        covers_recordRelationships relationships hparts axis left ⟨_, _, after⟩
      refine ⟨branches, Recorded.mem_lists_noted.mpr (.inl (hsub branches ?_)), hlength⟩
      exact Recorded.mem_lists_bind.mpr (.inr ⟨branch, hbranch, hb⟩)

theorem covers_recordRelationships : ∀ (relationships : List Relationship)
    {chosen document : Document} {documents : List Document},
    (recordRelationships relationships chosen document).result = .ok documents →
      Covers (recordRelationships relationships chosen document).lists
        (ofRelationships relationships chosen)
  | [], _, _, _, _ => .nil
  | relationship :: rest, chosen, document, documents, h => by
    rw [recordRelationships] at h ⊢
    exact .bind (.relationship relationship chosen)
      (result_recordRelationship relationship chosen document)
      (covers_recordRelationship relationship) (covers_recordRelationships rest) h

theorem covers_recordRelationship : ∀ (relationship : Relationship) {chosen document : Document}
    {documents : List Document},
    (recordRelationship relationship chosen document).result = .ok documents →
      Covers (recordRelationship relationship chosen document).lists
        [.relationship relationship chosen]
  | ⟨parent, assignment, children⟩, chosen, document, documents, h => by
    rintro axis left ⟨choices, writes, hs⟩
    cases holds : parent.same chosen with
    | true =>
      rw [recordRelationship, if_pos holds] at h ⊢
      rcases (selects_relationship_of_holds holds).mp hs with ⟨_, _, hleft⟩ | ⟨_, _, after⟩
      · cases hleft
      · rw [Recorded.result_bind] at h
        obtain ⟨branch, hbranch, h⟩ := bind_eq_ok.mp h
        rw [List.append_nil] at after
        obtain ⟨branches, hb, hlength⟩ := covers_recordAxes children h axis left ⟨_, _, after⟩
        exact ⟨branches, Recorded.mem_lists_bind.mpr (.inr ⟨branch, hbranch, hb⟩), hlength⟩
    | false =>
      rcases (selects_relationship_of_fails holds).mp hs with ⟨_, _, hleft⟩ | after
      · cases hleft
      · cases (selects_nil_iff.mp after).2.2
end

/-! ## How many branches there can be -/

/-- How many times as many branches there are behind what is pending. -/
def Pending.count : Pending → Nat
  | .axis first => first.branchCount
  | .relationship first chosen => if first.holdsFor chosen then exactCount first.children else 1

/-- The number of documents that all that is pending makes of one document. -/
def countPending : List Pending → Nat
  | [] => 1
  | next :: todo => next.count * countPending todo

theorem countPending_append (front back : List Pending) :
    countPending (front ++ back) = countPending front * countPending back := by
  induction front with
  | nil => rw [List.nil_append, countPending, Nat.one_mul]
  | cons next rest ih => rw [List.cons_append, countPending, countPending, ih, Nat.mul_assoc]

theorem countPending_ofAxes (axes : List Axis) : countPending (ofAxes axes) = exactCount axes := by
  induction axes with
  | nil => rw [exactCount]; rfl
  | cons axis rest ih =>
    rw [exactCount, ← ih, ofAxes, List.map_cons, countPending, Pending.count]
    rfl

theorem countPending_ofRelationships (relationships : List Relationship) (chosen : Document) :
    countPending (ofRelationships relationships chosen) = branchFactor relationships chosen := by
  induction relationships with
  | nil => rw [branchFactor]; rfl
  | cons relationship rest ih =>
    obtain ⟨parent, assignment, children⟩ := relationship
    rw [branchFactor, ← ih, ofRelationships, List.map_cons, countPending, Pending.count]
    rfl

/-- **The count does not grow.** Every choice is one summand of its axis. -/
theorem Leads.countPending_le {todo left : List Pending} (h : Leads todo left) :
    countPending left ≤ countPending todo := by
  obtain ⟨choices, writes, h⟩ := h
  induction h with
  | stop => exact Nat.le_refl _
  | @choose path candidates relationships chosen position todo _ _ _ candidate _ ih =>
    rw [countPending_append, countPending_ofRelationships] at ih
    -- The other candidates are summands too, so the count of the axis is no less.
    have summand : branchFactor relationships chosen
        ∈ candidates.map fun chosen => branchFactor relationships chosen :=
      List.mem_map_of_mem (List.mem_of_getElem? candidate)
    rw [countPending, Pending.count, Axis.branchCount]
    exact ih.trans (Nat.mul_le_mul_right _ (List.le_sum_of_mem summand))
  | follow relationship holds _ ih =>
    rw [countPending_append, countPending_ofAxes] at ih
    rwa [countPending, Pending.count, if_pos holds]
  | pass fails _ ih =>
    rwa [countPending, Pending.count, fails, if_neg (by simp), Nat.one_mul]

/-- An axis has no more branches than the whole has documents if a selection comes through what lies
behind the axis. -/
theorem branchCount_le_of_leads_nil {axes : List Axis} {axis : Axis} {left : List Pending}
    (h : Leads (ofAxes axes) (.axis axis :: left)) (through : Leads left []) :
    axis.branchCount ≤ exactCount axes := by
  have hcount := h.countPending_le
  rw [countPending_ofAxes, countPending, Pending.count] at hcount
  exact (Nat.le_mul_of_pos_right _ through.countPending_le).trans hcount

end Variation
