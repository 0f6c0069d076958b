import Variation.Proofs.Axis.Count

/-!
# Axes that come to the same

Two lists of axes are alike if they make the same documents of every document, or fail alike, and are
counted alike. `AxesAlike` says so and is a congruence: it may be shown of axes one by one, of the
relationships of an axis for each of its candidates, and of the child axes of a relationship.

A rewriting that goes through all relationships, the innermost first, changes nothing if it changes
nothing at one relationship (`axesAlike_rewriteAxes`). There are two of them. An assignment may be
declared as a child axis of one candidate in front of the others (`assignments_as_axes`), and
relationships that hold for no candidate or have nothing to do may be left out
(`inactive_left_out`). Both say something about failures as well, of writing and of counting, so they
are not read off the documents but off the two functions themselves.
-/

namespace Variation

/-! ## Alike -/

/-- The axes make and count the same. -/
structure AxesAlike (axes others : List Axis) : Prop where
  isEmpty : axes.isEmpty = others.isEmpty
  expand : ∀ document, expandAxes axes document = expandAxes others document
  count : countAxes axes = countAxes others

structure AxisAlike (axis other : Axis) : Prop where
  expand : ∀ document, expandAxis axis document = expandAxis other document
  count : countAxis axis = countAxis other

/-- The relationships make and count the same once a candidate has been chosen. They are only ever
asked to multiply numbers that fit. -/
structure RelationshipsAlike (chosen : Document) (relationships others : List Relationship) :
    Prop where
  expand : ∀ document,
    expandRelationships relationships chosen document = expandRelationships others chosen document
  count : ∀ product, product < 2 ^ 64 →
    countRelationships relationships chosen product = countRelationships others chosen product

theorem concatEach_congr {α β ε : Type} {f g : α → Except ε (List β)} {items : List α}
    (h : ∀ item ∈ items, f item = g item) : concatEach f items = concatEach g items := by
  induction items with
  | nil => rfl
  | cons item rest ih =>
    obtain ⟨first, behind⟩ := List.forall_mem_cons.mp h
    rw [concatEach_cons, concatEach_cons, first, ih behind]

theorem sumEach_congr {α : Type} {f g : α → Option Nat} {items : List α}
    (h : ∀ item ∈ items, f item = g item) (total : Nat) :
    sumEach f total items = sumEach g total items := by
  induction items generalizing total with
  | nil => rfl
  | cons item rest ih =>
    obtain ⟨first, behind⟩ := List.forall_mem_cons.mp h
    rw [sumEach_cons, sumEach_cons, first, funext (ih behind)]

theorem AxesAlike.nil : AxesAlike [] [] :=
  ⟨rfl, fun _ => rfl, rfl⟩

theorem AxesAlike.cons {axis other : Axis} {rest others : List Axis} (first : AxisAlike axis other)
    (behind : AxesAlike rest others) : AxesAlike (axis :: rest) (other :: others) := by
  refine ⟨rfl, ?_, ?_⟩
  · intro document
    rw [expandAxes_cons, expandAxes_cons, first.expand, funext behind.expand]
  · rw [countAxes_cons, countAxes_cons, first.count, behind.count]

theorem AxisAlike.of_relationships {path : KeyPath} {candidates : List Document}
    {relationships others : List Relationship}
    (h : ∀ chosen ∈ candidates, RelationshipsAlike chosen relationships others) :
    AxisAlike ⟨path, candidates, relationships⟩ ⟨path, candidates, others⟩ := by
  constructor
  · intro document
    rw [expandAxis_mk, expandAxis_mk]
    apply concatEach_congr
    intro chosen candidate
    rw [funext (h chosen candidate).expand]
  · rw [countAxis, countAxis]
    apply sumEach_congr
    intro chosen candidate
    exact (h chosen candidate).count 1 (by decide)

namespace RelationshipsAlike

variable {chosen parent : Document} {assignment : Option Assignment} {children : List Axis}
  {relationships middle others rest : List Relationship}

theorem refl (chosen : Document) (relationships : List Relationship) :
    RelationshipsAlike chosen relationships relationships :=
  ⟨fun _ => rfl, fun _ _ => rfl⟩

theorem trans (first : RelationshipsAlike chosen relationships middle)
    (second : RelationshipsAlike chosen middle others) :
    RelationshipsAlike chosen relationships others := by
  constructor
  · intro document
    rw [first.expand, second.expand]
  · intro product fit
    rw [first.count product fit, second.count product fit]

/-- Two relationships are alike that hold for the same candidates and, with their assignments, have
children that are alike. -/
theorem cons {assignment' : Option Assignment} {children' : List Axis}
    (expand : ∀ document : Document, (document.assigned assignment).bind (expandAxes children)
      = (document.assigned assignment').bind (expandAxes children'))
    (count : countAxes children = countAxes children')
    (behind : RelationshipsAlike chosen rest others) :
    RelationshipsAlike chosen (⟨parent, assignment, children⟩ :: rest)
      (⟨parent, assignment', children'⟩ :: others) := by
  constructor
  · intro document
    rw [expandRelationships_cons, expandRelationships_cons, expandRelationship_mk,
      expandRelationship_mk, expand, funext behind.expand]
  · intro product fit
    by_cases holds : parent.same chosen = true
    · rw [countRelationships_of_holds holds, countRelationships_of_holds holds, count]
      congr 1
      funext n
      cases hfits : fits? (product * n) with
      | none => rfl
      | some grown => exact behind.count grown (fits?_eq_some.mp hfits).2
    · rw [countRelationships_of_fails holds, countRelationships_of_fails holds]
      exact behind.count product fit

/-- A relationship that does not hold for the candidate adds nothing. -/
theorem cons_of_fails (fails : ¬ parent.same chosen = true) :
    RelationshipsAlike chosen rest (⟨parent, assignment, children⟩ :: rest) := by
  constructor
  · intro document
    rw [expandRelationships_cons, expandRelationship_mk, if_neg fails]
    exact (concatEach_singleton _ _).symm
  · intro product _
    exact (countRelationships_of_fails fails).symm

/-- A relationship without assignment and children adds nothing, whether it holds or not. -/
theorem cons_of_idle : RelationshipsAlike chosen rest (⟨parent, none, []⟩ :: rest) := by
  by_cases holds : parent.same chosen = true
  · constructor
    · intro document
      rw [expandRelationships_cons, expandRelationship_mk, if_pos holds]
      exact (concatEach_singleton _ _).symm
    · intro product fit
      have once : fits? (product * 1) = some product :=
        fits?_eq_some.mpr ⟨Nat.mul_one product, fit⟩
      rw [countRelationships_of_holds holds, countAxes, Option.bind_some, once, Option.bind_some]
  · exact cons_of_fails holds

end RelationshipsAlike

theorem AxesAlike.permute_eq {axes others : List Axis} (h : AxesAlike axes others)
    (base : Document) : permute axes base = permute others base := by
  rw [permute, permute, h.isEmpty, h.expand]

theorem AxesAlike.expectedCount_eq {axes others : List Axis} (h : AxesAlike axes others) :
    expectedCount axes = expectedCount others := by
  rw [expectedCount, expectedCount, h.isEmpty, h.count]

/-! ## Rewriting relationships at every depth -/

/-- What becomes of a relationship that belongs to an axis with these candidates. -/
abbrev Rewriting := List Document → Relationship → List Relationship

mutual
/-- The axes with all their relationships rewritten, the innermost first. -/
def rewriteAxes (f : Rewriting) : List Axis → List Axis
  | [] => []
  | axis :: rest => rewriteAxis f axis :: rewriteAxes f rest

def rewriteAxis (f : Rewriting) : Axis → Axis
  | ⟨path, candidates, relationships⟩ =>
    ⟨path, candidates, rewriteRelationships f candidates relationships⟩

def rewriteRelationships (f : Rewriting) (candidates : List Document) :
    List Relationship → List Relationship
  | [] => []
  | ⟨parent, assignment, children⟩ :: rest =>
    f candidates ⟨parent, assignment, rewriteAxes f children⟩
      ++ rewriteRelationships f candidates rest
end

/-- The rewriting of a relationship makes no difference behind any candidate of its axis. -/
def Rewriting.Neutral (f : Rewriting) : Prop :=
  ∀ candidates, ∀ chosen ∈ candidates, ∀ relationship rest,
    RelationshipsAlike chosen (f candidates relationship ++ rest) (relationship :: rest)

section Rewriting

variable {f : Rewriting}

mutual
/-- **Where the rewriting of one relationship is neutral so is that of all.** -/
theorem axesAlike_rewriteAxes (neutral : f.Neutral) : ∀ (axes : List Axis),
    AxesAlike (rewriteAxes f axes) axes
  | [] => by
    rw [rewriteAxes]
    exact .nil
  | axis :: rest => by
    rw [rewriteAxes]
    exact .cons (axisAlike_rewriteAxis neutral axis) (axesAlike_rewriteAxes neutral rest)

theorem axisAlike_rewriteAxis (neutral : f.Neutral) : ∀ (axis : Axis),
    AxisAlike (rewriteAxis f axis) axis
  | ⟨path, candidates, relationships⟩ => by
    rw [rewriteAxis]
    apply AxisAlike.of_relationships
    intro chosen candidate
    exact relationshipsAlike_rewriteRelationships neutral candidate relationships

theorem relationshipsAlike_rewriteRelationships (neutral : f.Neutral) {candidates : List Document}
    {chosen : Document} (candidate : chosen ∈ candidates) : ∀ (relationships : List Relationship),
    RelationshipsAlike chosen (rewriteRelationships f candidates relationships) relationships
  | [] => by
    rw [rewriteRelationships]
    exact .refl chosen []
  | ⟨parent, assignment, children⟩ :: rest => by
    have below := axesAlike_rewriteAxes neutral children
    have behind := relationshipsAlike_rewriteRelationships neutral candidate rest
    rw [rewriteRelationships]
    -- The children are rewritten first, then the relationship that they stand in.
    apply (neutral candidates chosen candidate _ _).trans
    refine .cons ?_ below.count behind
    intro document
    rw [funext below.expand]
end

/-- Of every relationship of the axis, at any depth, and of the candidates of the axis that it belongs
to it is as `p` says. -/
inductive Axis.Everywhere (p : List Document → Relationship → Prop) : Axis → Prop
  | mk {axis : Axis} (here : ∀ relationship ∈ axis.relationships, p axis.candidates relationship)
      (below : ∀ relationship ∈ axis.relationships, ∀ child ∈ relationship.children,
        child.Everywhere p) : axis.Everywhere p

variable {p : List Document → Relationship → Prop}

mutual
/-- What becomes of one relationship, and of the axes that come in with it, is found everywhere. -/
theorem everywhere_rewriteAxes
    (each : ∀ candidates relationship, ∀ other ∈ f candidates relationship, p candidates other ∧
      ∀ child ∈ other.children, child ∈ relationship.children ∨ child.Everywhere p) :
    ∀ (axes : List Axis), ∀ axis ∈ rewriteAxes f axes, axis.Everywhere p
  | [], _, member => by
    rw [rewriteAxes] at member
    cases member
  | axis :: rest, other, member => by
    rw [rewriteAxes] at member
    rcases List.mem_cons.mp member with rfl | later
    · exact everywhere_rewriteAxis each axis
    · exact everywhere_rewriteAxes each rest other later

theorem everywhere_rewriteAxis
    (each : ∀ candidates relationship, ∀ other ∈ f candidates relationship, p candidates other ∧
      ∀ child ∈ other.children, child ∈ relationship.children ∨ child.Everywhere p) :
    ∀ (axis : Axis), (rewriteAxis f axis).Everywhere p
  | ⟨path, candidates, relationships⟩ => by
    have inside := everywhere_rewriteRelationships each candidates relationships
    rw [rewriteAxis]
    constructor
    · intro relationship member
      exact (inside relationship member).1
    · intro relationship member
      exact (inside relationship member).2

theorem everywhere_rewriteRelationships
    (each : ∀ candidates relationship, ∀ other ∈ f candidates relationship, p candidates other ∧
      ∀ child ∈ other.children, child ∈ relationship.children ∨ child.Everywhere p)
    (candidates : List Document) : ∀ (relationships : List Relationship),
    ∀ relationship ∈ rewriteRelationships f candidates relationships,
      p candidates relationship ∧ ∀ child ∈ relationship.children, child.Everywhere p
  | [], _, member => by
    rw [rewriteRelationships] at member
    cases member
  | ⟨parent, assignment, children⟩ :: rest, other, member => by
    rw [rewriteRelationships] at member
    rcases List.mem_append.mp member with made | later
    · obtain ⟨here, origin⟩ := each _ _ _ made
      refine ⟨here, ?_⟩
      intro child hc
      rcases origin child hc with rewritten | brought
      · exact everywhere_rewriteAxes each children child rewritten
      · exact brought
    · exact everywhere_rewriteRelationships each candidates rest other later
end

end Rewriting

/-! ## Assignments as axes -/

/-- The axis that makes the assignment and nothing else. -/
def Assignment.axis (assignment : Assignment) : Axis :=
  ⟨assignment.path, [assignment.value], []⟩

/-- The relationship with its assignment turned into an axis in front of the child axes. -/
def assignmentAsAxis : Rewriting := fun _ relationship =>
  [⟨relationship.parent, none,
    relationship.assignment.toList.map Assignment.axis ++ relationship.children⟩]

/-- The axes with an axis in place of every assignment, at any depth. -/
def assignmentsAsAxes (axes : List Axis) : List Axis :=
  rewriteAxes assignmentAsAxis axes

theorem expandAxes_assignment (assignment : Option Assignment) (axes : List Axis)
    (document : Document) :
    expandAxes (assignment.toList.map Assignment.axis ++ axes) document
      = (document.assigned assignment).bind (expandAxes axes) := by
  cases assignment with
  | none => rfl
  | some assignment =>
    show expandAxes (assignment.axis :: axes) document = _
    rw [Assignment.axis, expandAxes_cons, expandAxis_mk, concatEach_singleton, Document.assigned]
    cases (document.replace assignment.path assignment.value).done with
    | error e => rfl
    | ok branch => exact concatEach_singleton _ _

/-- One candidate is counted as one, and one times a number that fits is that number. -/
theorem countAxes_assignment (assignment : Option Assignment) (axes : List Axis) :
    countAxes (assignment.toList.map Assignment.axis ++ axes) = countAxes axes := by
  cases assignment with
  | none => rfl
  | some assignment =>
    show countAxes (assignment.axis :: axes) = _
    have one : countAxis assignment.axis = some 1 := rfl
    rw [countAxes_cons, one, Option.bind_some, if_neg (by decide)]
    cases htail : countAxes axes with
    | none => rfl
    | some tail => exact fits?_eq_some.mpr ⟨Nat.one_mul tail, (countAxes_exact axes htail).2⟩

theorem neutral_assignmentAsAxis : assignmentAsAxis.Neutral := by
  rintro candidates chosen _ ⟨parent, assignment, children⟩ rest
  refine .cons ?_ (countAxes_assignment assignment children) (.refl chosen rest)
  intro document
  exact expandAxes_assignment assignment children document

/-- **An assignment is a leading child axis of one candidate.** Axes in which all assignments have
been declared so make the same documents or the same error, and have the same number. -/
theorem assignments_as_axes (axes : List Axis) (base : Document) :
    permute (assignmentsAsAxes axes) base = permute axes base ∧
    expectedCount (assignmentsAsAxes axes) = expectedCount axes ∧
    ∀ axis ∈ assignmentsAsAxes axes,
      axis.Everywhere fun _ relationship => relationship.assignment = none := by
  have alike : AxesAlike (assignmentsAsAxes axes) axes :=
    axesAlike_rewriteAxes neutral_assignmentAsAxis axes
  refine ⟨alike.permute_eq base, alike.expectedCount_eq, ?_⟩
  apply everywhere_rewriteAxes
  intro candidates relationship other member
  obtain rfl := List.mem_singleton.mp member
  refine ⟨rfl, ?_⟩
  intro child hc
  rcases List.mem_append.mp hc with made | below
  · -- The axis of an assignment has no relationships.
    obtain ⟨assignment, _, rfl⟩ := List.mem_map.mp made
    exact .inr (.mk nofun nofun)
  · exact .inl below

example :
    assignmentsAsAxes
      [⟨⟨.key "provider", []⟩, [.text "aws"],
        [⟨.text "aws", some ⟨⟨.key "region", []⟩, .text "us-east-2"⟩, []⟩]⟩] =
      [⟨⟨.key "provider", []⟩, [.text "aws"],
        [⟨.text "aws", none, [⟨⟨.key "region", []⟩, [.text "us-east-2"], []⟩]⟩]⟩] :=
  rfl

/-! ## Relationships that are never active -/

/-- The relationship holds for one of the candidates and has something to do. -/
def Relationship.activeAmong (candidates : List Document) (relationship : Relationship) : Bool :=
  candidates.any relationship.holdsFor &&
    !(relationship.assignment.isNone && relationship.children.isEmpty)

/-- The relationship, left out unless it is active. -/
def ifActive : Rewriting := fun candidates relationship =>
  if relationship.activeAmong candidates then [relationship] else []

/-- The axes without the relationships, at any depth, that are not active among the candidates of
their own axis. -/
def activeOnly (axes : List Axis) : List Axis :=
  rewriteAxes ifActive axes

/-- What is left out adds nothing behind any of the candidates. -/
theorem RelationshipsAlike.cons_of_inactive {candidates : List Document} {chosen : Document}
    (candidate : chosen ∈ candidates) {relationship : Relationship}
    (inactive : ¬ relationship.activeAmong candidates = true) {rest : List Relationship} :
    RelationshipsAlike chosen rest (relationship :: rest) := by
  obtain ⟨parent, assignment, children⟩ := relationship
  by_cases holds : parent.same chosen = true
  · -- It holds for a candidate, so it is left out because it has nothing to do.
    have among : candidates.any (Relationship.mk parent assignment children).holdsFor = true :=
      List.any_eq_true.mpr ⟨chosen, candidate, holds⟩
    rw [Relationship.activeAmong, among] at inactive
    obtain ⟨rfl, rfl⟩ : assignment = none ∧ children = [] := by simpa using inactive
    exact .cons_of_idle
  · exact .cons_of_fails holds

theorem neutral_ifActive : ifActive.Neutral := by
  intro candidates chosen candidate relationship rest
  unfold ifActive
  by_cases active : relationship.activeAmong candidates = true
  · rw [if_pos active]
    exact .refl chosen _
  · rw [if_neg active]
    exact .cons_of_inactive candidate active

/-- **Relationships that are never active may be left out.** The axes make the same documents or the
same error, and have the same number, whatever the child axes would do that are left out. -/
theorem inactive_left_out (axes : List Axis) (base : Document) :
    permute (activeOnly axes) base = permute axes base ∧
    expectedCount (activeOnly axes) = expectedCount axes ∧
    ∀ axis ∈ activeOnly axes, axis.Everywhere
      fun candidates relationship => relationship.activeAmong candidates = true := by
  have alike : AxesAlike (activeOnly axes) axes := axesAlike_rewriteAxes neutral_ifActive axes
  refine ⟨alike.permute_eq base, alike.expectedCount_eq, ?_⟩
  apply everywhere_rewriteAxes
  intro candidates relationship other member
  unfold ifActive at member
  by_cases active : relationship.activeAmong candidates = true
  · rw [if_pos active] at member
    obtain rfl := List.mem_singleton.mp member
    exact ⟨active, fun child hc => .inl hc⟩
  · rw [if_neg active] at member
    cases member

/-- One relationship waits for a candidate that the axis does not have, one has nothing to do. -/
example :
    activeOnly
      [⟨⟨.key "provider", []⟩, [.text "aws"],
        [⟨.text "gce", none, [⟨⟨.key "zone", []⟩, [], []⟩]⟩, ⟨.text "aws", none, []⟩]⟩] =
      [⟨⟨.key "provider", []⟩, [.text "aws"], []⟩] :=
  rfl

end Variation
