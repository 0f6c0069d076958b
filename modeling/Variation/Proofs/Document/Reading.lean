import Variation.Document.Lookup

/-!
# Steps of reading

Reading goes along a path in steps. `readKey` is the step that a key takes at a node that is no
sequence; `spread` takes it at every node under nested sequences. An index takes its step at once.

`Reaches` is the way that a path leads, without what is read at its end: a key that meets a sequence
is followed into each of the elements, so that one path may reach many nodes.
-/

namespace Variation.Document

/-! ## The step of a key and the step of an index -/

/-- What reading `.key name :: rest` yields at a node that is no sequence. -/
def readKey (place : List Segment) (name : String) (rest : List Segment) :
    Document → Except AccessError Document
  | .mapping entries =>
    match Entries.lookup? name entries with
    | some child => lookupFrom (place ++ [.key name]) rest child
    | none => .error (.missingKey (place ++ [.key name]))
  | other => .error (.typeMismatch (place ++ [.key name]) .mapping other.shape)

section Steps

variable {place rest : List Segment} {name : String} {position : UInt64} {node value : Document}

/-- A key is looked up at every node under nested sequences, and what lies there is read on. -/
theorem lookupFrom_key :
    lookupFrom place (.key name :: rest) node = node.spread place (readKey place name rest) := by
  rw [lookupFrom]
  congr 1

theorem readKey_of_lookup? {entries : Entries Document} {child : Document}
    (h : entries.lookup? name = some child) :
    readKey place name rest (.mapping entries) = lookupFrom (place ++ [.key name]) rest child := by
  simp only [readKey, h]

/-- A key is read if the node is a mapping that has it, and the rest of the path is read below. -/
theorem readKey_eq_ok :
    readKey place name rest node = .ok value ↔
      ∃ entries child, node = .mapping entries ∧ Entries.lookup? name entries = some child ∧
        lookupFrom (place ++ [.key name]) rest child = .ok value := by
  cases node with
  | mapping entries =>
    simp only [readKey]
    cases found : Entries.lookup? name entries <;> simp [found]
  | _ => simp [readKey]

theorem lookupFrom_index_of_getElem? {items : List Document} {child : Document}
    (h : items[position.toNat]? = some child) :
    lookupFrom place (.index position :: rest) (.sequence items)
      = lookupFrom (place ++ [.index position]) rest child := by
  simp only [lookupFrom, h]

/-- An index is read if the node is a sequence that is long enough, and the rest of the path is read
below. -/
theorem lookupFrom_index_eq_ok :
    lookupFrom place (.index position :: rest) node = .ok value ↔
      ∃ items child, node = .sequence items ∧ items[position.toNat]? = some child ∧
        lookupFrom (place ++ [.index position]) rest child = .ok value := by
  cases node with
  | sequence items =>
    simp only [lookupFrom]
    cases found : items[position.toNat]? <;> simp [found]
  | _ => simp [lookupFrom]

end Steps

/-! ## The way that a path leads -/

/-- Following `segments` from `node` may come to `there` with `left` still to follow. -/
inductive Reaches : List Segment → Document → List Segment → Document → Prop
  | here {segments : List Segment} {node : Document} : Reaches segments node segments node
  | element {name : String} {rest left : List Segment} {items : List Document}
      {item there : Document} (member : item ∈ items)
      (behind : Reaches (.key name :: rest) item left there) :
      Reaches (.key name :: rest) (.sequence items) left there
  | entry {name : String} {rest left : List Segment} {entries : Entries Document}
      {child there : Document} (found : entries.lookup? name = some child)
      (behind : Reaches rest child left there) :
      Reaches (.key name :: rest) (.mapping entries) left there
  | item {position : UInt64} {rest left : List Segment} {items : List Document}
      {child there : Document} (found : items[position.toNat]? = some child)
      (behind : Reaches rest child left there) :
      Reaches (.index position :: rest) (.sequence items) left there

/-- A key of the segments meets a sequence without elements somewhere on the way. -/
def MeetsEmpty (segments : List Segment) (node : Document) : Prop :=
  ∃ name rest, Reaches segments node (.key name :: rest) (.sequence [])

section MeetsEmpty

variable {name : String} {position : UInt64} {rest : List Segment} {node : Document}

/-- Only a key can meet an empty sequence. -/
theorem not_meetsEmpty_nil : ¬ MeetsEmpty [] node := by
  rintro ⟨_, _, h⟩
  cases h

/-- A key meets the sequence itself, or one that it is followed into. -/
theorem meetsEmpty_sequence {items : List Document} :
    MeetsEmpty (.key name :: rest) (.sequence items) ↔
      items = [] ∨ ∃ item ∈ items, MeetsEmpty (.key name :: rest) item := by
  constructor
  · rintro ⟨name', rest', h⟩
    cases h with
    | here => exact .inl rfl
    | element member behind => exact .inr ⟨_, member, name', rest', behind⟩
  · rintro (rfl | ⟨item, member, name', rest', behind⟩)
    · exact ⟨name, rest, .here⟩
    · exact ⟨name', rest', .element member behind⟩

theorem meetsEmpty_mapping {entries : Entries Document} :
    MeetsEmpty (.key name :: rest) (.mapping entries) ↔
      ∃ child, entries.lookup? name = some child ∧ MeetsEmpty rest child := by
  constructor
  · rintro ⟨name', rest', h⟩
    cases h with
    | entry found behind => exact ⟨_, found, name', rest', behind⟩
  · rintro ⟨child, found, name', rest', behind⟩
    exact ⟨name', rest', .entry found behind⟩

theorem meetsEmpty_index {items : List Document} :
    MeetsEmpty (.index position :: rest) (.sequence items) ↔
      ∃ child, items[position.toNat]? = some child ∧ MeetsEmpty rest child := by
  constructor
  · rintro ⟨name', rest', h⟩
    cases h with
    | item found behind => exact ⟨_, found, name', rest', behind⟩
  · rintro ⟨child, found, name', rest', behind⟩
    exact ⟨name', rest', .item found behind⟩

end MeetsEmpty

end Variation.Document
