import Variation.Axis.Basic

/-!
# Selections

A *selection* goes through a list of axes and takes one candidate of each. Right after a choice come
the relationships that hold for the chosen candidate, one after the other: each makes its assignment
and then has its child axes gone through in the same way. What a selection yields is the sequence of
its writes; the positions of the chosen candidates, in the order of choosing, tell selections apart.

The rules are those of a machine. `Pending` is what a selection still has to go through, the next
thing first, and `Selects todo choices writes left` says that going through `todo` may make these
choices and these writes and then have `left` before it. With nothing left the selection is complete;
with anything else it is partial, be it that it was stopped or that an axis has no candidate to take.

`Leads` forgets the choices and the writes: it says what a selection can come to have before it.

`selections` lists the complete selections. `mem_selections_iff` says that the list has exactly those
of the machine and `pairwise_selections` that it has them in the lexicographic order of their choices.
-/

namespace Variation

/-! ## The machine -/

/-- What a selection goes through next. -/
inductive Pending where
  /-- A candidate of the axis is to be chosen. -/
  | axis (axis : Axis)
  /-- A candidate of the axis that the relationship belongs to has been chosen. -/
  | relationship (relationship : Relationship) (chosen : Document)

def Pending.ofAxes (axes : List Axis) : List Pending :=
  axes.map .axis

/-- All relationships of an axis of which a candidate has been chosen, in order. -/
def Pending.ofRelationships (relationships : List Relationship) (chosen : Document) :
    List Pending :=
  relationships.map (.relationship · chosen)

open Pending (ofAxes ofRelationships)

/-- Going through `todo` may make these choices and writes and then have `left` before it. -/
inductive Selects : List Pending → List Nat → List Assignment → List Pending → Prop
  | stop {todo : List Pending} : Selects todo [] [] todo
  | choose {path : KeyPath} {candidates : List Document} {relationships : List Relationship}
      {chosen : Document} {position : Nat} {todo left : List Pending} {choices : List Nat}
      {writes : List Assignment} (candidate : candidates[position]? = some chosen)
      (after : Selects (ofRelationships relationships chosen ++ todo) choices writes left) :
      Selects (.axis ⟨path, candidates, relationships⟩ :: todo)
        (position :: choices) (⟨path, chosen⟩ :: writes) left
  | follow (relationship : Relationship) {chosen : Document} {todo left : List Pending}
      {choices : List Nat} {writes : List Assignment} (holds : relationship.holdsFor chosen = true)
      (after : Selects (ofAxes relationship.children ++ todo) choices writes left) :
      Selects (.relationship relationship chosen :: todo)
        choices (relationship.assignment.toList ++ writes) left
  | pass {relationship : Relationship} {chosen : Document} {todo left : List Pending}
      {choices : List Nat} {writes : List Assignment} (fails : relationship.holdsFor chosen = false)
      (after : Selects todo choices writes left) :
      Selects (.relationship relationship chosen :: todo) choices writes left

/-- The choices that a selection makes and the writes that come of them. -/
structure Selection where
  choices : List Nat
  writes : List Assignment

/-- A selection of the axes that has gone through all of them. -/
def Selection.Complete (axes : List Axis) (selection : Selection) : Prop :=
  Selects (ofAxes axes) selection.choices selection.writes []

/-- A selection of the axes, gone any part of the way. -/
def Selection.Partial (axes : List Axis) (selection : Selection) : Prop :=
  ∃ left, Selects (ofAxes axes) selection.choices selection.writes left

/-! ## Induction on what is pending

One step of the machine replaces the next thing by what it leads to, which is not a part of the list
but a part of its first element. The recursion behind the principle is that of the axes: whatever
holds of `todo` holds with axes or relationships put in front of it. -/

/-- What holds of all that the next thing leads to holds with the next thing in front. -/
structure Pending.Closed (motive : List Pending → Prop) : Prop where
  axis : ∀ path candidates relationships todo,
    (∀ chosen, motive (ofRelationships relationships chosen ++ todo)) →
      motive (.axis ⟨path, candidates, relationships⟩ :: todo)
  relationship : ∀ parent assignment children chosen todo,
    motive (ofAxes children ++ todo) → motive todo →
      motive (.relationship ⟨parent, assignment, children⟩ chosen :: todo)

namespace Pending.Closed

variable {motive : List Pending → Prop}

mutual
theorem ofAxes (closed : Closed motive) : ∀ (axes : List Axis) {todo : List Pending},
    motive todo → motive (Pending.ofAxes axes ++ todo)
  | [], _, h => h
  | first :: rest, _, h => closed.ofAxis first (closed.ofAxes rest h)

theorem ofAxis (closed : Closed motive) : ∀ (first : Axis) {todo : List Pending},
    motive todo → motive (.axis first :: todo)
  | ⟨path, candidates, relationships⟩, todo, h =>
    closed.axis path candidates relationships todo fun chosen =>
      closed.ofRelationships relationships chosen h

theorem ofRelationships (closed : Closed motive) :
    ∀ (relationships : List Relationship) (chosen : Document) {todo : List Pending},
      motive todo → motive (Pending.ofRelationships relationships chosen ++ todo)
  | [], _, _, h => h
  | first :: rest, chosen, _, h =>
    closed.ofRelationship first chosen (closed.ofRelationships rest chosen h)

theorem ofRelationship (closed : Closed motive) :
    ∀ (first : Relationship) (chosen : Document) {todo : List Pending},
      motive todo → motive (.relationship first chosen :: todo)
  | ⟨parent, assignment, children⟩, chosen, todo, h =>
    closed.relationship parent assignment children chosen todo (closed.ofAxes children h) h
end

end Pending.Closed

/-- **Induction along the steps of the machine.** -/
@[elab_as_elim]
theorem Pending.induction {motive : List Pending → Prop} (nil : motive [])
    (axis : ∀ path candidates relationships todo,
      (∀ chosen, motive (Pending.ofRelationships relationships chosen ++ todo)) →
        motive (.axis ⟨path, candidates, relationships⟩ :: todo))
    (relationship : ∀ parent assignment children chosen todo,
      motive (Pending.ofAxes children ++ todo) → motive todo →
        motive (.relationship ⟨parent, assignment, children⟩ chosen :: todo))
    (todo : List Pending) : motive todo := by
  have closed : Closed motive := ⟨axis, relationship⟩
  -- What the first thing leads to is longer than the list; the axes in it are smaller.
  induction todo with
  | nil => exact nil
  | cons next rest ih =>
    cases next with
    | axis first => exact closed.ofAxis first ih
    | relationship first chosen => exact closed.ofRelationship first chosen ih

/-! ## What a step can do -/

section Steps

variable {path : KeyPath} {candidates : List Document} {relationships : List Relationship}
  {parent chosen : Document} {assignment : Option Assignment} {children : List Axis}
  {todo left : List Pending} {choices : List Nat} {writes : List Assignment}

theorem selects_nil_iff :
    Selects [] choices writes left ↔ choices = [] ∧ writes = [] ∧ left = [] := by
  constructor
  · intro h
    cases h
    exact ⟨rfl, rfl, rfl⟩
  · rintro ⟨rfl, rfl, rfl⟩
    exact .stop

theorem selects_axis_iff :
    Selects (.axis ⟨path, candidates, relationships⟩ :: todo) choices writes left ↔
      (choices = [] ∧ writes = [] ∧ left = .axis ⟨path, candidates, relationships⟩ :: todo) ∨
      ∃ position chosen choices' writes', candidates[position]? = some chosen ∧
        choices = position :: choices' ∧ writes = ⟨path, chosen⟩ :: writes' ∧
        Selects (ofRelationships relationships chosen ++ todo) choices' writes' left := by
  constructor
  · intro h
    cases h with
    | stop => exact .inl ⟨rfl, rfl, rfl⟩
    | choose candidate after => exact .inr ⟨_, _, _, _, candidate, rfl, rfl, after⟩
  · rintro (⟨rfl, rfl, rfl⟩ | ⟨position, chosen, choices', writes', candidate, rfl, rfl, after⟩)
    · exact .stop
    · exact .choose candidate after

theorem selects_relationship_of_holds (holds : parent.same chosen = true) :
    Selects (.relationship ⟨parent, assignment, children⟩ chosen :: todo) choices writes left ↔
      (choices = [] ∧ writes = [] ∧
        left = .relationship ⟨parent, assignment, children⟩ chosen :: todo) ∨
      ∃ writes', writes = assignment.toList ++ writes' ∧
        Selects (ofAxes children ++ todo) choices writes' left := by
  constructor
  · intro h
    cases h with
    | stop => exact .inl ⟨rfl, rfl, rfl⟩
    | follow _ _ after => exact .inr ⟨_, rfl, after⟩
    | pass fails after => exact absurd (holds.symm.trans fails) (by simp)
  · rintro (⟨rfl, rfl, rfl⟩ | ⟨writes', rfl, after⟩)
    · exact .stop
    · exact .follow ⟨parent, assignment, children⟩ holds after

theorem selects_relationship_of_fails (fails : parent.same chosen = false) :
    Selects (.relationship ⟨parent, assignment, children⟩ chosen :: todo) choices writes left ↔
      (choices = [] ∧ writes = [] ∧
        left = .relationship ⟨parent, assignment, children⟩ chosen :: todo) ∨
      Selects todo choices writes left := by
  constructor
  · intro h
    cases h with
    | stop => exact .inl ⟨rfl, rfl, rfl⟩
    | follow _ holds after => exact absurd (holds.symm.trans fails) (by simp)
    | pass _ after => exact .inr after
  · rintro (⟨rfl, rfl, rfl⟩ | after)
    · exact .stop
    · exact .pass fails after

end Steps

/-- A run that comes to where another starts goes on as the other. -/
theorem Selects.append {todo middle left : List Pending} {choices choices' : List Nat}
    {writes writes' : List Assignment} (first : Selects todo choices writes middle)
    (second : Selects middle choices' writes' left) :
    Selects todo (choices ++ choices') (writes ++ writes') left := by
  induction first with
  | stop => exact second
  | choose candidate _ ih => exact .choose candidate (ih second)
  | follow relationship holds _ ih =>
    rw [List.append_assoc]
    exact .follow relationship holds (ih second)
  | pass fails _ ih => exact .pass fails (ih second)

/-- What stands further back stays there. -/
theorem Selects.append_right {todo left : List Pending} {choices : List Nat}
    {writes : List Assignment} (h : Selects todo choices writes left) (back : List Pending) :
    Selects (todo ++ back) choices writes (left ++ back) := by
  induction h with
  | stop => exact .stop
  | choose candidate _ ih =>
    rw [List.append_assoc] at ih
    exact .choose candidate ih
  | follow relationship holds _ ih =>
    rw [List.append_assoc] at ih
    exact .follow relationship holds ih
  | pass fails _ ih => exact .pass fails ih

/-! ## What lies ahead

Which choices and writes lead somewhere does not matter to what stands further back: it stays where
it is until its turn comes. -/

/-- Some selection that goes through `todo` comes to have `left` before it. -/
def Leads (todo left : List Pending) : Prop :=
  ∃ choices writes, Selects todo choices writes left

namespace Leads

variable {todo middle left : List Pending}

theorem refl (todo : List Pending) : Leads todo todo :=
  ⟨[], [], .stop⟩

theorem choose {path : KeyPath} {candidates : List Document} {relationships : List Relationship}
    {chosen : Document} (candidate : chosen ∈ candidates)
    (after : Leads (ofRelationships relationships chosen ++ todo) left) :
    Leads (.axis ⟨path, candidates, relationships⟩ :: todo) left := by
  obtain ⟨position, hp⟩ := List.mem_iff_getElem?.mp candidate
  obtain ⟨_, _, h⟩ := after
  exact ⟨_, _, .choose hp h⟩

theorem follow {relationship : Relationship} {chosen : Document}
    (holds : relationship.holdsFor chosen = true)
    (after : Leads (ofAxes relationship.children ++ todo) left) :
    Leads (.relationship relationship chosen :: todo) left := by
  obtain ⟨_, _, h⟩ := after
  exact ⟨_, _, .follow relationship holds h⟩

theorem pass {relationship : Relationship} {chosen : Document}
    (fails : relationship.holdsFor chosen = false) (after : Leads todo left) :
    Leads (.relationship relationship chosen :: todo) left := by
  obtain ⟨_, _, h⟩ := after
  exact ⟨_, _, .pass fails h⟩

theorem trans (first : Leads todo middle) (second : Leads middle left) : Leads todo left := by
  obtain ⟨choices, writes, h⟩ := first
  induction h with
  | stop => exact second
  | choose candidate _ ih => exact .choose (List.mem_of_getElem? candidate) (ih second)
  | follow relationship holds _ ih => exact .follow holds (ih second)
  | pass fails _ ih => exact .pass fails (ih second)

theorem append_right (h : Leads todo left) (back : List Pending) :
    Leads (todo ++ back) (left ++ back) := by
  obtain ⟨choices, writes, h⟩ := h
  exact ⟨choices, writes, h.append_right back⟩

/-- A selection that has come through what stands in front goes on with what stands behind. -/
theorem append {front back : List Pending} (first : Leads front []) (second : Leads back left) :
    Leads (front ++ back) left :=
  (first.append_right back).trans second

/-- A selection is still within what stands in front or has come through it. -/
theorem of_append (front : List Pending) {back : List Pending} (h : Leads (front ++ back) left) :
    (∃ next more, Leads front (next :: more) ∧ left = next :: more ++ back) ∨
    (Leads front [] ∧ Leads back left) := by
  obtain ⟨choices, writes, h⟩ := h
  -- No step looks behind `front`, so what it leads to is told apart in the same way.
  induction front using Pending.induction generalizing choices writes with
  | nil => exact .inr ⟨.refl [], choices, writes, h⟩
  | axis path candidates relationships todo ih =>
    rcases selects_axis_iff.mp h with
      ⟨_, _, rfl⟩ | ⟨position, chosen, choices', writes', candidate, _, _, after⟩
    · exact .inl ⟨_, todo, .refl _, rfl⟩
    · have member := List.mem_of_getElem? candidate
      rw [List.append_eq, ← List.append_assoc] at after
      rcases ih chosen _ _ after with ⟨next, more, hn, rfl⟩ | ⟨hf, hb⟩
      · exact .inl ⟨next, more, .choose member hn, rfl⟩
      · exact .inr ⟨.choose member hf, hb⟩
  | relationship parent assignment children chosen todo ihChildren ihTodo =>
    cases holds : parent.same chosen with
    | true =>
      rcases (selects_relationship_of_holds holds).mp h with ⟨_, _, rfl⟩ | ⟨writes', _, after⟩
      · exact .inl ⟨_, todo, .refl _, rfl⟩
      · rw [List.append_eq, ← List.append_assoc] at after
        rcases ihChildren _ _ after with ⟨next, more, hn, rfl⟩ | ⟨hf, hb⟩
        · exact .inl ⟨next, more, .follow holds hn, rfl⟩
        · exact .inr ⟨.follow holds hf, hb⟩
    | false =>
      rcases (selects_relationship_of_fails holds).mp h with ⟨_, _, rfl⟩ | after
      · exact .inl ⟨_, todo, .refl _, rfl⟩
      · rcases ihTodo _ _ after with ⟨next, more, hn, rfl⟩ | ⟨hf, hb⟩
        · exact .inl ⟨next, more, .pass holds hn, rfl⟩
        · exact .inr ⟨.pass holds hf, hb⟩

/-- Where every axis that lies ahead has a candidate some selection comes through. -/
theorem nil_of_candidates {todo : List Pending}
    (h : ∀ axis left, Leads todo (.axis axis :: left) → axis.candidates ≠ []) : Leads todo [] := by
  induction todo using Pending.induction with
  | nil => exact .refl []
  | axis path candidates relationships todo ih =>
    obtain ⟨chosen, candidate⟩ := List.exists_mem_of_ne_nil candidates (h _ todo (.refl _))
    exact .choose candidate (ih chosen fun axis left hl => h axis left (.choose candidate hl))
  | relationship parent assignment children chosen todo ihChildren ihTodo =>
    cases holds : parent.same chosen with
    | true => exact .follow holds (ihChildren fun axis left hl => h axis left (.follow holds hl))
    | false => exact .pass holds (ihTodo fun axis left hl => h axis left (.pass holds hl))

end Leads

/-! ## The complete selections, listed -/

namespace Selection

/-- A selection with a choice and its write in front. -/
def choose (position : Nat) (write : Assignment) (selection : Selection) : Selection :=
  ⟨position :: selection.choices, write :: selection.writes⟩

/-- A selection with writes in front that come of no choice. -/
def write (writes : List Assignment) (selection : Selection) : Selection :=
  ⟨selection.choices, writes ++ selection.writes⟩

end Selection

mutual
/-- The selections that go through axes and then on as `after` does. What comes after is the same
behind every choice, so the recursion is that of the axes alone. -/
def selectAxes : List Axis → List Selection → List Selection
  | [], after => after
  | axis :: rest, after => selectAxis axis (selectAxes rest after)

def selectAxis : Axis → List Selection → List Selection
  | ⟨path, candidates, relationships⟩, after =>
    candidates.zipIdx.flatMap fun (chosen, position) =>
      (selectRelationships relationships chosen after).map (.choose position ⟨path, chosen⟩)

def selectRelationships : List Relationship → Document → List Selection → List Selection
  | [], _, after => after
  | relationship :: rest, chosen, after =>
    selectRelationship relationship chosen (selectRelationships rest chosen after)

def selectRelationship : Relationship → Document → List Selection → List Selection
  | ⟨parent, assignment, children⟩, chosen, after =>
    if parent.same chosen then (selectAxes children after).map (.write assignment.toList)
    else after
end

/-- The complete selections of what is pending. -/
def selections : List Pending → List Selection
  | [] => [⟨[], []⟩]
  | .axis axis :: todo => selectAxis axis (selections todo)
  | .relationship relationship chosen :: todo =>
    selectRelationship relationship chosen (selections todo)

theorem selections_ofAxes_append (axes : List Axis) (todo : List Pending) :
    selections (ofAxes axes ++ todo) = selectAxes axes (selections todo) := by
  induction axes with
  | nil => rfl
  | cons axis rest ih => exact congrArg (selectAxis axis) ih

theorem selections_ofRelationships_append (relationships : List Relationship) (chosen : Document)
    (todo : List Pending) :
    selections (ofRelationships relationships chosen ++ todo)
      = selectRelationships relationships chosen (selections todo) := by
  induction relationships with
  | nil => rfl
  | cons relationship rest ih => exact congrArg (selectRelationship relationship chosen) ih

theorem selections_axis (path : KeyPath) (candidates : List Document)
    (relationships : List Relationship) (todo : List Pending) :
    selections (.axis ⟨path, candidates, relationships⟩ :: todo)
      = candidates.zipIdx.flatMap fun (chosen, position) =>
          (selections (ofRelationships relationships chosen ++ todo)).map
            (.choose position ⟨path, chosen⟩) := by
  simp only [selections, selectAxis, selections_ofRelationships_append]

theorem selections_relationship (parent chosen : Document) (assignment : Option Assignment)
    (children : List Axis) (todo : List Pending) :
    selections (.relationship ⟨parent, assignment, children⟩ chosen :: todo)
      = if parent.same chosen then
          (selections (ofAxes children ++ todo)).map (.write assignment.toList)
        else selections todo := by
  simp only [selections, selectRelationship, selections_ofAxes_append]

/-- The list has exactly the complete selections of the machine. -/
theorem mem_selections_iff {todo : List Pending} {selection : Selection} :
    selection ∈ selections todo ↔ Selects todo selection.choices selection.writes [] := by
  obtain ⟨choices, writes⟩ := selection
  induction todo using Pending.induction generalizing choices writes with
  | nil => simp [selections, selects_nil_iff]
  | axis path candidates relationships todo ih =>
    rw [selections_axis, selects_axis_iff]
    constructor
    · intro h
      obtain ⟨⟨chosen, position⟩, hp, hs⟩ := List.mem_flatMap.mp h
      obtain ⟨⟨choices', writes'⟩, hs', rfl, rfl⟩ := List.mem_map.mp hs
      exact .inr ⟨position, chosen, choices', writes', List.mk_mem_zipIdx_iff_getElem?.mp hp,
        rfl, rfl, (ih chosen choices' writes').mp hs'⟩
    · rintro (⟨_, _, h⟩ | ⟨position, chosen, choices', writes', candidate, rfl, rfl, after⟩)
      · cases h
      · -- The position of a candidate is its choice.
        have hs' := (ih chosen choices' writes').mpr after
        exact List.mem_flatMap.mpr ⟨(chosen, position),
          List.mk_mem_zipIdx_iff_getElem?.mpr candidate, List.mem_map.mpr ⟨_, hs', rfl⟩⟩
  | relationship parent assignment children chosen todo ihChildren ihTodo =>
    rw [selections_relationship]
    cases holds : parent.same chosen with
    | false => simp [selects_relationship_of_fails holds, ihTodo]
    | true =>
      rw [if_pos rfl, selects_relationship_of_holds holds]
      constructor
      · intro h
        obtain ⟨⟨choices', writes'⟩, hs, rfl, rfl⟩ := List.mem_map.mp h
        exact .inr ⟨writes', rfl, (ihChildren choices' writes').mp hs⟩
      · rintro (⟨_, _, h⟩ | ⟨writes', rfl, after⟩)
        · cases h
        · exact List.mem_map.mpr ⟨_, (ihChildren choices writes').mpr after, rfl⟩

/-- The list is in the strict lexicographic order of the choices. -/
theorem pairwise_selections (todo : List Pending) :
    (selections todo).Pairwise (·.choices < ·.choices) := by
  induction todo using Pending.induction with
  | nil => simp [selections]
  | axis path candidates relationships todo ih =>
    -- Behind one candidate the order is that of the rest; between two it is decided at once.
    have positions : candidates.zipIdx.Pairwise (·.2 < ·.2) := by
      rw [← List.pairwise_map (f := Prod.snd), List.zipIdx_map_snd]
      exact List.pairwise_lt_range'
    rw [selections_axis, List.pairwise_flatMap]
    refine ⟨fun candidate _ => ?_, positions.imp fun hlt first hf second hs => ?_⟩
    · refine List.pairwise_map.mpr ((ih candidate.1).imp fun h => ?_)
      exact List.cons_lt_cons_iff.mpr (.inr ⟨rfl, h⟩)
    · obtain ⟨_, _, rfl⟩ := List.mem_map.mp hf
      obtain ⟨_, _, rfl⟩ := List.mem_map.mp hs
      exact List.cons_lt_cons_iff.mpr (.inl hlt)
  | relationship parent assignment children chosen todo ihChildren ihTodo =>
    rw [selections_relationship]
    split
    · exact List.pairwise_map.mpr ihChildren
    · exact ihTodo

end Variation
