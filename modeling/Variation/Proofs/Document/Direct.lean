import Variation.Proofs.Document.Reading
import Variation.Proofs.Document.Slots
import Variation.Proofs.Path.Divergence

/-!
# Paths that lead straight to a place

A path leads *straight* to a node if each of its segments takes one step: a key steps into a
mapping and an index into a sequence, so no key is spread over a sequence. Such a path names one
position of the document (`straight_iff_at?`). What is read at it is the node there, and a write
stores the value there and nowhere else.

Of two divergent paths neither position lies at or below the other, so a write at one of them leaves
the other straight.
-/

namespace Variation

/-- The step that a segment takes where it is not spread. -/
def Segment.step : Segment → Step
  | .key name => .entry name
  | .index position => .element position.toNat

theorem Segment.step_injective {a b : Segment} (h : a.step = b.step) : a = b := by
  cases a <;> cases b <;> simp only [step, Step.entry.injEq, Step.element.injEq, reduceCtorEq] at h
  · rw [h]
  · rw [UInt64.toNat_inj.mp h]

/-- The position that a path leads to where no segment is spread. -/
def KeyPath.position (path : KeyPath) : List Step :=
  path.segments.map Segment.step

theorem Diverge.apart {p q : List Segment} (h : Diverge p q) :
    Document.Apart (p.map Segment.step) (q.map Segment.step) := by
  induction h with
  | keys ne => exact Document.apart_of_ne fun heq => ne (by injection heq)
  | indices ne => exact Document.apart_of_ne fun heq => ne (UInt64.toNat_inj.mp (by injection heq))
  | step segment _ ih => exact Document.apart_cons.mpr ih

namespace Document

/-- Following `segments` from `node` leads to `there`, each key into a mapping and each index into a
sequence. -/
inductive Straight : List Segment → Document → Document → Prop
  | here {node : Document} : Straight [] node node
  | entry {name : String} {rest : List Segment} {entries : Entries Document}
      {child there : Document} (found : entries.lookup? name = some child)
      (behind : Straight rest child there) : Straight (.key name :: rest) (.mapping entries) there
  | item {position : UInt64} {rest : List Segment} {items : List Document}
      {child there : Document} (found : items[position.toNat]? = some child)
      (behind : Straight rest child there) :
      Straight (.index position :: rest) (.sequence items) there

theorem at?_entry {entries : Entries Document} {name : String} {rest : List Step} :
    at? (.mapping entries) (.entry name :: rest)
      = (Entries.lookup? name entries).bind fun child => child.at? rest := by
  cases found : Entries.lookup? name entries with
  | some child => rw [at?, slot?_entry found, Option.bind_some, at?]
  | none =>
    rw [at?, slot?, found]
    cases rest <;> rfl

theorem at?_element {items : List Document} {i : Nat} {rest : List Step} :
    at? (.sequence items) (.element i :: rest) = items[i]?.bind fun child => child.at? rest := by
  cases found : items[i]? with
  | some child => rw [at?, slot?_element found, Option.bind_some, at?]
  | none =>
    rw [at?, slot?, found]
    rfl

/-- A path leads straight to what is at its position. -/
theorem straight_iff_at? {segments : List Segment} {node there : Document} :
    Straight segments node there ↔ node.at? (segments.map Segment.step) = some there := by
  constructor
  · intro h
    induction h with
    | here => rfl
    | entry found _ ih =>
      rw [List.map_cons, Segment.step, at?_entry, found]
      exact ih
    | item found _ ih =>
      rw [List.map_cons, Segment.step, at?_element, found]
      exact ih
  · intro h
    induction segments generalizing node with
    | nil =>
      cases h
      exact .here
    | cons segment rest ih =>
      cases segment with
      | key name =>
        cases node with
        | mapping entries =>
          rw [List.map_cons, Segment.step, at?_entry] at h
          obtain ⟨child, found, hchild⟩ := Option.bind_eq_some_iff.mp h
          exact .entry found (ih hchild)
        | _ => cases h
      | index position =>
        cases node with
        | sequence items =>
          rw [List.map_cons, Segment.step, at?_element] at h
          obtain ⟨child, found, hchild⟩ := Option.bind_eq_some_iff.mp h
          exact .item found (ih hchild)
        | _ => cases h

namespace Straight

variable {segments place : List Segment} {node there : Document}

theorem lookupFrom_eq (h : Straight segments node there) :
    lookupFrom place segments node = .ok there := by
  induction h generalizing place with
  | here => rfl
  | @entry name rest entries child there found _ ih =>
    rw [lookupFrom_key]
    show readKey place name rest (.mapping entries) = .ok there
    rw [readKey_of_lookup? found]
    exact ih
  | item found _ ih =>
    rw [lookupFrom_index_of_getElem? found]
    exact ih

theorem get_eq {path : KeyPath} (h : Straight path.segments node there) :
    node.get path = .ok there :=
  h.lookupFrom_eq

/-- The path addresses one place, the slot that it leads to. -/
theorem placesFrom_eq (h : Straight segments node there) :
    placesFrom place segments node = [.slot (segments.map Segment.step) (some there)] := by
  induction h generalizing place with
  | here => rfl
  | @entry name rest entries child there found _ ih =>
    rw [placesFrom_key]
    show placesKey place name rest (.mapping entries) = _
    rw [placesKey_of_lookup? found, ih]
    rfl
  | item found _ ih =>
    rw [placesFrom_index_of_getElem? found, ih]
    rfl

/-- A write stores the value at the position of the path and goes through. -/
theorem replace_eq {path : KeyPath} (h : Straight path.segments node there) (value : Document) :
    node.replace path value = ⟨node.setAt path.position value, none⟩ := by
  rw [replace, writeFrom_eq_filled, h.placesFrom_eq]
  rfl

theorem slot?_eq (h : Straight segments node there) :
    node.slot? (segments.map Segment.step) = some (some there) :=
  Option.join_eq_some_iff.mp (straight_iff_at?.mp h)

/-- What is stored apart from the path does not concern it. -/
theorem setAt_of_apart {slot : List Step} (h : Straight segments node there)
    (hapart : Apart slot (segments.map Segment.step)) (value : Document) :
    Straight segments (node.setAt slot value) there := by
  rw [straight_iff_at?, at?, slot?_setAt_of_apart hapart]
  exact straight_iff_at?.mp h

end Straight

end Document

end Variation
