import Variation.Proofs.Document.Overwriting
import Variation.Proofs.Document.Reading

/-!
# Where an access fails

An error of an access names a place: the segments that have been followed, and with them the one that
could not be. `access_errors_point` says that there is a node of the document behind this name. The way
along the first segments leads to it, through one element of every sequence that a key meets, and
the node is in the condition that the error describes.

A write changes the document while it goes along, but only behind itself: what it fails at is a node
of the document as it was. The reader may fail in two more ways, both at a sequence that it has been
led to by all segments named: it is empty, or two of its elements give different values.
-/

namespace Variation

/-- The place that an error names. -/
def AccessError.place : AccessError → List Segment
  | .missingKey place | .indexOutOfRange place _ _ | .typeMismatch place _ _
  | .emptySequence place | .divergentSequence place => place

/-- An error of one segment at one node. The other errors are those of a sequence as a whole. -/
def AccessError.OfStep : AccessError → Prop
  | .missingKey _ | .indexOutOfRange _ _ _ | .typeMismatch _ _ _ => True
  | .emptySequence _ | .divergentSequence _ => False

namespace Document

/-- A segment cannot be followed at a node, in the way that an error says. -/
inductive StepFails : Segment → Document → AccessError → Prop
  | missingKey {place : List Segment} {name : String} {entries : Entries Document}
      (absent : entries.lookup? name = none) :
      StepFails (.key name) (.mapping entries) (.missingKey place)
  | indexOutOfRange {place : List Segment} {position : UInt64} {items : List Document}
      (short : items.length ≤ position.toNat) :
      StepFails (.index position) (.sequence items) (.indexOutOfRange place position items.length)
  | noMapping {place : List Segment} {name : String} {node : Document}
      (plain : node.shape ≠ .mapping ∧ node.shape ≠ .sequence) :
      StepFails (.key name) node (.typeMismatch place .mapping node.shape)
  | noSequence {place : List Segment} {position : UInt64} {node : Document}
      (plain : node.shape ≠ .sequence) :
      StepFails (.index position) node (.typeMismatch place .sequence node.shape)

/-- No value can be read from the elements of a sequence along `rest`, in the way that an error says. -/
inductive SpreadFails (rest : KeyPath) : List Document → AccessError → Prop
  | emptySequence {place : List Segment} : SpreadFails rest [] (.emptySequence place)
  | divergentSequence {place : List Segment} {items : List Document} {a b x y : Document}
      (first : a ∈ items) (second : b ∈ items) (hx : a.get rest = .ok x) (hy : b.get rest = .ok y)
      (differ : x.same y = false) : SpreadFails rest items (.divergentSequence place)

/-- Following `segments`, with which `path` ends, comes to a node at which the segment behind the first
`k` of the path fails; the error names the path up to this segment. -/
def FailsAtStep (path segments : List Segment) (node : Document) (k : Nat) (error : AccessError) :
    Prop :=
  ∃ segment there, path[k]? = some segment ∧ Reaches segments node (path.drop k) there ∧
    StepFails segment there error ∧ error.place = path.take (k + 1)

/-- Following `segments`, with which `path` ends, comes to a sequence behind the first `k` segments of
the path. A key is next, and the rest of the path cannot be read from the elements; the error names
the path up to the sequence. -/
def FailsAtSpread (path segments : List Segment) (node : Document) (k : Nat) (error : AccessError) :
    Prop :=
  ∃ name rest items, path.drop k = .key name :: rest ∧
    Reaches segments node (path.drop k) (.sequence items) ∧
    SpreadFails ⟨.key name, rest⟩ items error ∧ error.place = path.take k

/-! ## Ways that go on -/

section Ways

variable {path segments middle left place rest : List Segment} {node there last : Document}
  {segment : Segment} {name : String} {items : List Document} {error : AccessError} {k : Nat}

theorem Reaches.trans (first : Reaches segments node middle there)
    (second : Reaches middle there left last) : Reaches segments node left last := by
  induction first with
  | here => exact second
  | element member _ ih => exact .element member (ih second)
  | entry found _ ih => exact .entry found (ih second)
  | item found _ ih => exact .item found (ih second)

theorem FailsAtStep.behind (way : Reaches segments node left there)
    (h : FailsAtStep path left there k error) : FailsAtStep path segments node k error := by
  obtain ⟨segment, stop, next, reaches, fails⟩ := h
  exact ⟨segment, stop, next, way.trans reaches, fails⟩

theorem FailsAtSpread.behind (way : Reaches segments node left there)
    (h : FailsAtSpread path left there k error) : FailsAtSpread path segments node k error := by
  obtain ⟨name, rest, items, next, reaches, fails⟩ := h
  exact ⟨name, rest, items, next, way.trans reaches, fails⟩

theorem StepFails.shape_eq {expected found : Shape}
    (fails : StepFails segment node (.typeMismatch place expected found)) : node.shape = found := by
  cases fails <;> rfl

theorem StepFails.ofStep (fails : StepFails segment node error) : error.OfStep := by
  cases fails <;> trivial

theorem StepFails.here (fails : StepFails segment node error)
    (named : error.place = place ++ [segment]) :
    FailsAtStep (place ++ segment :: rest) (segment :: rest) node place.length error := by
  refine ⟨segment, node, by simp, ?_, fails, ?_⟩
  · rw [List.drop_left]
    exact .here
  · have hlength : place.length + 1 = (place ++ [segment]).length := by simp
    rw [named, List.append_cons place segment rest, hlength, List.take_left]

theorem SpreadFails.here (fails : SpreadFails ⟨.key name, rest⟩ items error)
    (named : error.place = place) :
    FailsAtSpread (place ++ .key name :: rest) (.key name :: rest) (.sequence items) place.length
      error := by
  refine ⟨name, rest, items, List.drop_left, ?_, fails, ?_⟩
  · rw [List.drop_left]
    exact .here
  · rw [named, List.take_left]

end Ways

/-! ## Nested sequences -/

/-- Induction along sequences in sequences. -/
@[elab_as_elim]
theorem sequence_induction {motive : Document → Prop}
    (sequence : ∀ items, (∀ item ∈ items, motive item) → motive (.sequence items))
    (plain : ∀ node, node.shape ≠ .sequence → motive node) (node : Document) : motive node := by
  cases node with
  | sequence items => exact sequence items fun item _ => sequence_induction sequence plain item
  | _ => exact plain _ (by simp [shape])

theorem spread_of_plain {place : List Segment} {read : Document → Except AccessError Document}
    {node : Document} (plain : node.shape ≠ .sequence) : node.spread place read = read node := by
  cases node with
  | sequence items => exact absurd rfl plain
  | _ => rfl

theorem writeEach_of_plain {write : Document → Written} {node : Document}
    (plain : node.shape ≠ .sequence) : node.writeEach write = write node := by
  cases node with
  | sequence items => exact absurd rfl plain
  | _ => rfl

/-- Why the elements of a sequence yield nothing: one of them does not, there is none, or one yields
something else than one before it. -/
theorem spreadItems_eq_error {place : List Segment}
    {read : Document → Except AccessError Document} {agreed : Option Document}
    {items : List Document} {error : AccessError}
    (h : spreadItems place read agreed items = .error error) :
    (∃ item ∈ items, item.spread place read = .error error) ∨
    (items = [] ∧ error = .emptySequence place) ∨
    ∃ x y, (agreed = some x ∨ ∃ a ∈ items, a.spread place read = .ok x) ∧
      (∃ b ∈ items, b.spread place read = .ok y) ∧ x.same y = false ∧
        error = .divergentSequence place := by
  induction items generalizing agreed with
  | nil =>
    cases agreed with
    | none =>
      cases h
      exact .inr (.inl ⟨rfl, rfl⟩)
    | some value => cases h
  | cons item rest ih =>
    rw [spreadItems] at h
    cases hitem : item.spread place read with
    | error fault =>
      rw [hitem] at h
      cases h
      exact .inl ⟨item, List.mem_cons_self, hitem⟩
    | ok value =>
      simp only [hitem] at h
      split at h
      · next hagreed =>
        rcases ih h with ⟨inner, member, hinner⟩ | ⟨rfl, rfl⟩ | ⟨x, y, hx, ⟨b, hb, hy⟩, differ⟩
        · exact .inl ⟨inner, List.mem_cons_of_mem _ member, hinner⟩
        · cases h
        · refine .inr (.inr ⟨x, y, .inr ?_, ⟨b, List.mem_cons_of_mem _ hb, hy⟩, differ⟩)
          rcases hx with heq | ⟨a, ha, hx⟩
          · cases heq
            exact ⟨item, List.mem_cons_self, hitem⟩
          · exact ⟨a, List.mem_cons_of_mem _ ha, hx⟩
      · next hdiffer =>
        cases h
        cases agreed with
        | none => simp at hdiffer
        | some x =>
          have differ : x.same value = false := by simpa using hdiffer
          exact .inr (.inr ⟨x, value, .inl rfl, ⟨item, List.mem_cons_self, hitem⟩, differ, rfl⟩)

/-- A value that is read goes by no place. -/
theorem spread_of_ok {place place' : List Segment}
    {read read' : Document → Except AccessError Document}
    (step : ∀ {node value}, read node = .ok value → read' node = .ok value) (node : Document) :
    ∀ {value}, node.spread place read = .ok value → node.spread place' read' = .ok value := by
  induction node using sequence_induction with
  | plain node plain =>
    intro value h
    rw [spread_of_plain plain] at h ⊢
    exact step h
  | sequence items ih =>
    suffices hitems : ∀ agreed value, spreadItems place read agreed items = .ok value →
        spreadItems place' read' agreed items = .ok value by
      intro value h
      exact hitems none value h
    induction items with
    | nil =>
      intro agreed value h
      cases agreed with
      | none => cases h
      | some first => exact h
    | cons item rest ihRest =>
      intro agreed value h
      obtain ⟨hitem, hrest⟩ := List.forall_mem_cons.mp ih
      rw [spreadItems] at h ⊢
      cases hvalue : item.spread place read with
      | error fault =>
        rw [hvalue] at h
        cases h
      | ok next =>
        rw [hvalue] at h
        rw [hitem hvalue]
        simp only at h ⊢
        split at h
        · next hagreed =>
          rw [if_pos hagreed]
          exact ihRest hrest _ _ h
        · cases h

/-- A write into a sequence fails in one of the elements. -/
theorem exists_of_writeItems {write : Document → Written} {items : List Document}
    {error : AccessError} (h : (writeItems write items).2 = some error) :
    ∃ item ∈ items, (item.writeEach write).fault? = some error := by
  induction items with
  | nil => cases h
  | cons item rest ih =>
    rw [writeItems] at h
    cases hitem : item.writeEach write with
    | mk after fault? =>
      rw [hitem] at h
      cases fault? with
      | some fault =>
        cases h
        exact ⟨item, List.mem_cons_self, by rw [hitem]⟩
      | none =>
        obtain ⟨inner, member, hinner⟩ := ih h
        exact ⟨inner, List.mem_cons_of_mem _ member, hinner⟩

/-! ## Reading -/

theorem lookupFrom_of_ok {segments place place' : List Segment} {node value : Document}
    (h : lookupFrom place segments node = .ok value) :
    lookupFrom place' segments node = .ok value := by
  induction segments generalizing place place' node value with
  | nil => exact h
  | cons segment rest ih =>
    cases segment with
    | key name =>
      rw [lookupFrom_key] at h ⊢
      refine spread_of_ok ?_ node h
      intro node value h
      obtain ⟨entries, child, hnode, found, hchild⟩ := readKey_eq_ok.mp h
      exact readKey_eq_ok.mpr ⟨entries, child, hnode, found, ih hchild⟩
    | index position =>
      obtain ⟨items, child, hnode, found, hchild⟩ := lookupFrom_index_eq_ok.mp h
      exact lookupFrom_index_eq_ok.mpr ⟨items, child, hnode, found, ih hchild⟩

/-- A read along `segments` fails at a step or at a sequence. -/
def ReadFails (path segments : List Segment) (node : Document) (error : AccessError) : Prop :=
  (∃ k, FailsAtStep path segments node k error) ∨ ∃ k, FailsAtSpread path segments node k error

theorem ReadFails.behind {path segments left : List Segment} {node there : Document}
    {error : AccessError} (way : Reaches segments node left there)
    (h : ReadFails path left there error) : ReadFails path segments node error := by
  rcases h with ⟨k, h⟩ | ⟨k, h⟩
  · exact .inl ⟨k, h.behind way⟩
  · exact .inr ⟨k, h.behind way⟩

section Reading

variable {place rest : List Segment} {name : String} {error : AccessError}

/-- Under nested sequences a read fails at one of the ends or at one of the sequences. -/
theorem readFails_of_spread
    (plain : ∀ {node}, node.shape ≠ .sequence → readKey place name rest node = .error error →
      ReadFails (place ++ .key name :: rest) (.key name :: rest) node error) (node : Document) :
    node.spread place (readKey place name rest) = .error error →
      ReadFails (place ++ .key name :: rest) (.key name :: rest) node error := by
  induction node using sequence_induction with
  | plain node hplain =>
    intro h
    rw [spread_of_plain hplain] at h
    exact plain hplain h
  | sequence items ih =>
    intro h
    rw [spread] at h
    rcases spreadItems_eq_error h with
      ⟨item, member, hitem⟩ | ⟨rfl, rfl⟩ | ⟨x, y, hfirst, ⟨b, hb, hy⟩, differ, rfl⟩
    · exact (ih item member hitem).behind (.element member .here)
    · exact .inr ⟨_, SpreadFails.emptySequence.here rfl⟩
    · rcases hfirst with hnone | ⟨a, ha, hx⟩
      · cases hnone
      · rw [← lookupFrom_key] at hx hy
        have hfails : SpreadFails ⟨.key name, rest⟩ items (.divergentSequence place) :=
          .divergentSequence ha hb (lookupFrom_of_ok hx) (lookupFrom_of_ok hy) differ
        exact .inr ⟨_, hfails.here rfl⟩

/-- The step of a key at a node that is no sequence, given what happens behind it. -/
theorem readFails_of_readKey
    (behind : ∀ {child}, lookupFrom (place ++ [.key name]) rest child = .error error →
      ReadFails (place ++ .key name :: rest) rest child error) {node : Document}
    (plain : node.shape ≠ .sequence) (h : readKey place name rest node = .error error) :
    ReadFails (place ++ .key name :: rest) (.key name :: rest) node error := by
  cases node with
  | mapping entries =>
    rw [readKey] at h
    cases found : Entries.lookup? name entries with
    | some child =>
      rw [found] at h
      exact (behind h).behind (.entry found .here)
    | none =>
      rw [found] at h
      cases h
      exact .inl ⟨_, (StepFails.missingKey found).here rfl⟩
  | sequence items => exact absurd rfl plain
  | _ =>
    cases h
    exact .inl ⟨_, (StepFails.noMapping (by simp [shape])).here rfl⟩

end Reading

/-- **Where a read fails.** -/
theorem readFails_of_lookupFrom {segments path place : List Segment} {node : Document}
    {error : AccessError} (whole : path = place ++ segments)
    (h : lookupFrom place segments node = .error error) : ReadFails path segments node error := by
  induction segments generalizing place node with
  | nil => cases h
  | cons segment rest ih =>
    have next : path = place ++ [segment] ++ rest := by simp [whole]
    subst whole
    cases segment with
    | key name =>
      rw [lookupFrom_key] at h
      exact readFails_of_spread (readFails_of_readKey (ih next)) node h
    | index position =>
      cases node with
      | sequence items =>
        rw [lookupFrom] at h
        cases found : items[position.toNat]? with
        | some child =>
          simp only [found] at h
          exact (ih next h).behind (.item found .here)
        | none =>
          simp only [found] at h
          cases h
          have hshort := List.getElem?_eq_none_iff.mp found
          exact .inl ⟨_, (StepFails.indexOutOfRange hshort).here rfl⟩
      | _ =>
        cases h
        exact .inl ⟨_, (StepFails.noSequence (by simp [shape])).here rfl⟩

/-! ## Writing -/

/-- A write along `segments` fails at a step. The last key of a path need not be there. -/
def WriteFails (path segments : List Segment) (node : Document) (error : AccessError) : Prop :=
  ∃ k, FailsAtStep path segments node k error ∧
    ∀ named, error = .missingKey named → k + 1 < path.length

theorem WriteFails.behind {path segments left : List Segment} {node there : Document}
    {error : AccessError} (way : Reaches segments node left there)
    (h : WriteFails path left there error) : WriteFails path segments node error := by
  obtain ⟨k, hstep, hkey⟩ := h
  exact ⟨k, hstep.behind way, hkey⟩

section Writing

variable {value : Document} {place rest : List Segment} {name : String} {error : AccessError}

theorem writeFails_of_writeEach
    (plain : ∀ {node}, node.shape ≠ .sequence →
      (writeKey value place name rest node).fault? = some error →
        WriteFails (place ++ .key name :: rest) (.key name :: rest) node error) (node : Document) :
    (node.writeEach (writeKey value place name rest)).fault? = some error →
      WriteFails (place ++ .key name :: rest) (.key name :: rest) node error := by
  induction node using sequence_induction with
  | plain node hplain =>
    intro h
    rw [writeEach_of_plain hplain] at h
    exact plain hplain h
  | sequence items ih =>
    intro h
    -- The elements before the one that fails are written by then; the one that fails is as it was.
    obtain ⟨item, member, hitem⟩ := exists_of_writeItems h
    exact (ih item member hitem).behind (.element member .here)

theorem writeFails_of_writeKey
    (behind : ∀ {child}, (writeFrom value (place ++ [.key name]) rest child).fault? = some error →
      WriteFails (place ++ .key name :: rest) rest child error) {node : Document}
    (plain : node.shape ≠ .sequence)
    (h : (writeKey value place name rest node).fault? = some error) :
    WriteFails (place ++ .key name :: rest) (.key name :: rest) node error := by
  cases node with
  | mapping entries =>
    cases rest with
    | nil => cases h
    | cons segment more =>
      cases found : Entries.lookup? name entries with
      | some child =>
        simp only [writeKey, found] at h
        exact (behind h).behind (.entry found .here)
      | none =>
        simp only [writeKey, found] at h
        cases h
        refine ⟨_, (StepFails.missingKey found).here rfl, ?_⟩
        intro named _
        simp
  | sequence items => exact absurd rfl plain
  | _ =>
    cases h
    exact ⟨_, (StepFails.noMapping (by simp [shape])).here rfl, by simp⟩

end Writing

/-- **Where a write fails.** -/
theorem writeFails_of_writeFrom {segments path place : List Segment} {value node : Document}
    {error : AccessError} (whole : path = place ++ segments)
    (h : (writeFrom value place segments node).fault? = some error) :
    WriteFails path segments node error := by
  induction segments generalizing place node with
  | nil => cases h
  | cons segment rest ih =>
    have next : path = place ++ [segment] ++ rest := by simp [whole]
    subst whole
    cases segment with
    | key name =>
      rw [writeFrom_key] at h
      exact writeFails_of_writeEach (writeFails_of_writeKey (ih next)) node h
    | index position =>
      cases node with
      | sequence items =>
        rw [writeFrom] at h
        cases found : items[position.toNat]? with
        | some child =>
          simp only [found] at h
          exact (ih next h).behind (.item found .here)
        | none =>
          simp only [found] at h
          cases h
          have hshort := List.getElem?_eq_none_iff.mp found
          exact ⟨_, (StepFails.indexOutOfRange hshort).here rfl, by simp⟩
      | _ =>
        cases h
        exact ⟨_, (StepFails.noSequence (by simp [shape])).here rfl, by simp⟩

theorem Written.done_eq_error {written : Written} {error : AccessError} :
    written.done = .error error ↔ written.fault? = some error := by
  obtain ⟨document, fault?⟩ := written
  cases fault? <;> simp [Written.done]

theorem ofStep_of_replace {document value : Document} {path : KeyPath} {error : AccessError}
    (h : (document.replace path value).done = .error error) : error.OfStep := by
  rw [Written.done_eq_error] at h
  obtain ⟨_, ⟨_, _, _, _, hfails, _⟩, _⟩ := writeFails_of_writeFrom rfl h
  exact hfails.ofStep

/-! ## The main result -/

section Names

variable {path : KeyPath} {segments : List Segment} {node : Document} {k : Nat}
  {error : AccessError}

theorem FailsAtStep.name (h : FailsAtStep path.segments segments node k error) :
    placeName error.place = KeyPath.textOf (path.segments.take (k + 1)) := by
  obtain ⟨_, _, _, _, _, hplace⟩ := h
  rw [hplace]
  rfl

theorem FailsAtSpread.name (h : FailsAtSpread path.segments segments node k error) :
    placeName error.place = if k = 0 then "<root>" else KeyPath.textOf (path.segments.take k) := by
  obtain ⟨_, _, _, _, _, _, hplace⟩ := h
  rw [hplace]
  cases k <;> rfl

end Names

/-- **Errors point at nodes.** When a read or a write fails at a segment, some way along the segments
before it leads to a node of the document at which the segment fails as the error says, and the text
in the error is that of the segments up to this one. A write fails in no other way, and only in front
of the last segment for want of a key. A read may also fail at a sequence to which the segments named
lead, the root being named if there are none: the sequence is empty, or the rest of the path reads
unequal values from two of its elements. -/
theorem access_errors_point (document value : Document) (path : KeyPath) (error : AccessError) :
    (document.get path = .error error →
      (∃ k, FailsAtStep path.segments path.segments document k error ∧
        placeName error.place = KeyPath.textOf (path.segments.take (k + 1))) ∨
      (∃ k, FailsAtSpread path.segments path.segments document k error ∧
        placeName error.place
          = if k = 0 then "<root>" else KeyPath.textOf (path.segments.take k))) ∧
    ((document.replace path value).done = .error error →
      ∃ k, FailsAtStep path.segments path.segments document k error ∧
        placeName error.place = KeyPath.textOf (path.segments.take (k + 1)) ∧
        ∀ named, error = .missingKey named → k + 1 < path.segments.length) := by
  constructor
  · intro h
    rcases readFails_of_lookupFrom rfl h with ⟨k, hstep⟩ | ⟨k, hspread⟩
    · exact .inl ⟨k, hstep, hstep.name⟩
    · exact .inr ⟨k, hspread, hspread.name⟩
  · intro h
    rw [Written.done_eq_error] at h
    obtain ⟨k, hstep, hkey⟩ := writeFails_of_writeFrom rfl h
    exact ⟨k, hstep, hstep.name, hkey⟩

/-- A pool among the pools is a sequence of its own. If a pool in it has no size, the error of a read
leads to that pool; if two pools in it have different sizes, to that sequence or the one around it. If
there is a number in place of a pool, the error of a write leads to the number, although the pool
before it has been given the size by then. -/
theorem access_errors_point_pools :
    let size : KeyPath := ⟨.key "pools", [.key "size"]⟩
    let pools (items : List Document) : Document := .mapping [("pools", .sequence items)]
    let sized (text : String) : Document := .mapping [("size", .text text)]
    let bare := pools [sized "small", .sequence [.mapping []]]
    let unequal := pools [.sequence [sized "small", sized "large"]]
    let number := pools [sized "small", .sequence [.whole (.ofWord 1)]]
    let mismatch : AccessError := .typeMismatch size.segments .mapping .number
    bare.get size = .error (.missingKey size.segments) ∧
      (∃ entries, Reaches size.segments bare [.key "size"] (.mapping entries) ∧
        Entries.lookup? "size" entries = none) ∧
      unequal.get size = .error (.divergentSequence [.key "pools"]) ∧
      (∃ items, Reaches size.segments unequal [.key "size"] (.sequence items) ∧
        ∃ a ∈ items, ∃ b ∈ items, ∃ x y, a.get ⟨.key "size", []⟩ = .ok x ∧
          b.get ⟨.key "size", []⟩ = .ok y ∧ x.same y = false) ∧
      (number.replace size (.text "large")).done = .error mismatch ∧
      ∃ node, Reaches size.segments number [.key "size"] node ∧ node.shape = .number := by
  intro size pools sized bare unequal number mismatch
  have hbare : bare.get size = .error (.missingKey size.segments) := rfl
  have hunequal : unequal.get size = .error (.divergentSequence [.key "pools"]) := rfl
  have hnumber : (number.replace size (.text "large")).done = .error mismatch := rfl
  refine ⟨hbare, ?_, hunequal, ?_, hnumber, ?_⟩
  · rcases (access_errors_point bare .null size _).1 hbare with ⟨k, hstep, -⟩ | ⟨k, hspread, -⟩
    · obtain ⟨segment, there, hsegment, hway, hfails, hplace⟩ := hstep
      match k with
      | 0 => cases hplace
      | 1 =>
        cases hsegment
        cases hfails with
        | missingKey absent => exact ⟨_, hway, absent⟩
      | k + 2 => cases hsegment
    · obtain ⟨_, _, _, _, _, hfails, _⟩ := hspread
      cases hfails
  · rcases (access_errors_point unequal .null size _).1 hunequal with
      ⟨k, hstep, -⟩ | ⟨k, hspread, -⟩
    · obtain ⟨_, _, _, _, hfails, _⟩ := hstep
      cases hfails
    · obtain ⟨name, rest, items, hrest, hway, hfails, hplace⟩ := hspread
      match k with
      | 0 => cases hplace
      | 1 =>
        cases hrest
        cases hfails with
        | divergentSequence ha hb hx hy differ => exact ⟨items, hway, _, ha, _, hb, _, _, hx, hy, differ⟩
      | k + 2 => simp [size, KeyPath.segments] at hrest
  · obtain ⟨k, hstep, -, -⟩ := (access_errors_point number (.text "large") size _).2 hnumber
    obtain ⟨segment, there, hsegment, hway, hfails, hplace⟩ := hstep
    match k with
    | 0 => cases hplace
    | 1 => exact ⟨there, hway, StepFails.shape_eq hfails⟩
    | k + 2 => cases hsegment

end Document

end Variation
