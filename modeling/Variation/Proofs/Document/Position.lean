import Variation.Document.Basic

/-!
# Positions in a document

A position is one place in a document: the steps that lead to it from the root, each into one entry
of a mapping or into one element of a sequence. A key path may address many positions, since a key
that meets a sequence goes on into each of its elements; a position is a single one.

`at?` is the node at a position and `setAt` stores a node there, also behind a key that the last
mapping on the way does not have. The laws say what is then at every position: at the same one the
node that was stored, above it a node that is as it was except for what it holds, and everything
else as it was.
-/

namespace Variation

/-- One step down from a node: into an entry of a mapping, or into an element of a sequence. -/
inductive Step where
  | entry (name : String)
  | element (position : Nat)
deriving DecidableEq

namespace Document

/-- What the slot at a position holds: a node, or nothing when the last step would enter a mapping
that does not have the key. Elsewhere there is no slot. -/
def slot? : Document → List Step → Option (Option Document)
  | node, [] => some (some node)
  | .mapping entries, .entry name :: rest =>
    match Entries.lookup? name entries with
    | some child => child.slot? rest
    | none => if rest.isEmpty then some none else none
  | .sequence items, .element position :: rest =>
    match items[position]? with
    | some child => child.slot? rest
    | none => none
  | _, _ :: _ => none

/-- The node at a position. -/
def at? (document : Document) (position : List Step) : Option Document :=
  (document.slot? position).join

/-- The document with a node stored at a position. Where the steps lead nowhere nothing is stored; a
last step into an entry that a mapping does not have inserts it. -/
def setAt : Document → List Step → Document → Document
  | _, [], value => value
  | .mapping entries, .entry name :: rest, value =>
    match Entries.lookup? name entries with
    | some child => .mapping (Entries.insert name (child.setAt rest value) entries)
    | none => .mapping (if rest.isEmpty then Entries.insert name value entries else entries)
  | .sequence items, .element position :: rest, value =>
    match items[position]? with
    | some child => .sequence (items.set position (child.setAt rest value))
    | none => .sequence items
  | node, _ :: _, _ => node

/-- What a node is apart from what it holds: a scalar itself, a sequence by its length. -/
def outline : Document → Document
  | .sequence items => .sequence (items.map fun _ => .null)
  | .mapping _ => .mapping []
  | node => node

/-- Neither position lies at or below the other. -/
def Apart (first second : List Step) : Prop :=
  ¬ first <+: second ∧ ¬ second <+: first

theorem Apart.symm {first second : List Step} (h : Apart first second) : Apart second first :=
  ⟨h.2, h.1⟩

theorem apart_cons {step : Step} {first second : List Step} :
    Apart (step :: first) (step :: second) ↔ Apart first second := by
  simp [Apart, List.cons_prefix_cons]

theorem apart_of_ne {step step' : Step} {first second : List Step} (h : step ≠ step') :
    Apart (step :: first) (step' :: second) := by
  simp [Apart, List.cons_prefix_cons, h, Ne.symm h]

section Steps

variable {entries : Entries Document} {items : List Document} {child value : Document}
  {name : String} {i : Nat} {rest : List Step}

theorem slot?_entry (h : entries.lookup? name = some child) :
    slot? (.mapping entries) (.entry name :: rest) = child.slot? rest := by
  rw [slot?, h]

theorem slot?_element (h : items[i]? = some child) :
    slot? (.sequence items) (.element i :: rest) = child.slot? rest := by
  rw [slot?, h]

theorem setAt_entry (h : entries.lookup? name = some child) :
    setAt (.mapping entries) (.entry name :: rest) value
      = .mapping (entries.insert name (child.setAt rest value)) := by
  rw [setAt, h]

theorem setAt_element (h : items[i]? = some child) :
    setAt (.sequence items) (.element i :: rest) value
      = .sequence (items.set i (child.setAt rest value)) := by
  rw [setAt, h]

theorem setAt_insert (entries : Entries Document) (name : String) (value : Document) :
    setAt (.mapping entries) [.entry name] value = .mapping (entries.insert name value) := by
  simp only [setAt]
  split <;> rfl

end Steps

/-- Storing what is there changes nothing. -/
theorem setAt_of_at? {slot : List Step} {document value : Document}
    (h : document.at? slot = some value) : document.setAt slot value = document := by
  induction slot generalizing document with
  | nil =>
    cases h
    rfl
  | cons step rest ih =>
    cases document <;> cases step <;> try rfl
    case mapping.entry entries name =>
      cases found : Entries.lookup? name entries with
      | some child =>
        rw [at?, slot?_entry found] at h
        rw [setAt_entry found, ih h, Entries.insert_of_lookup? found]
      | none =>
        rw [at?, slot?, found] at h
        cases hrest : rest.isEmpty <;> simp [hrest] at h
    case sequence.element items i =>
      cases found : items[i]? with
      | some child =>
        rw [at?, slot?_element found] at h
        obtain ⟨bound, rfl⟩ := List.getElem?_eq_some_iff.mp found
        rw [setAt_element found, ih h, List.set_getElem_self]
      | none => rw [setAt, found]

/-- Storing something below a mapping concerns one of its entries only. -/
theorem exists_setAt_mapping (entries : Entries Document) (name : String) (rest : List Step)
    (value : Document) : ∃ after : Entries Document,
      setAt (.mapping entries) (.entry name :: rest) value = .mapping after ∧
        ∀ other, other ≠ name → after.lookup? other = entries.lookup? other := by
  rw [setAt]
  split
  · exact ⟨_, rfl, fun other hne => Entries.lookup?_insert_of_ne _ entries hne⟩
  · refine ⟨_, rfl, fun other hne => ?_⟩
    split
    · exact Entries.lookup?_insert_of_ne value entries hne
    · rfl

theorem exists_setAt_sequence (items : List Document) (i : Nat) (rest : List Step)
    (value : Document) : ∃ after : List Document,
      setAt (.sequence items) (.element i :: rest) value = .sequence after ∧
        after.length = items.length ∧ ∀ j, j ≠ i → after[j]? = items[j]? := by
  rw [setAt]
  split
  · exact ⟨_, rfl, List.length_set, fun j hne => List.getElem?_set_ne (Ne.symm hne)⟩
  · exact ⟨items, rfl, rfl, fun _ _ => rfl⟩

/-! ## What is where after a node has been stored -/

/-- At the position itself is what was stored. -/
theorem slot?_setAt_self {slot : List Step} {document value : Document}
    (h : (document.slot? slot).isSome = true) :
    (document.setAt slot value).slot? slot = some (some value) := by
  induction slot generalizing document with
  | nil => rw [setAt, slot?]
  | cons step rest ih =>
    cases document <;> cases step <;> try cases h
    case mapping.entry entries name =>
      cases found : Entries.lookup? name entries with
      | some child =>
        rw [slot?_entry found] at h
        rw [setAt_entry found, slot?_entry (Entries.lookup?_insert ..)]
        exact ih h
      | none =>
        cases rest with
        | nil =>
          rw [setAt, found]
          exact slot?_entry (Entries.lookup?_insert name value entries)
        | cons step rest => simp [slot?, found] at h
    case sequence.element items i =>
      cases found : items[i]? with
      | some child =>
        have bound : i < items.length := (List.getElem?_eq_some_iff.mp found).1
        rw [slot?_element found] at h
        rw [setAt_element found, slot?_element (List.getElem?_set_self bound)]
        exact ih h
      | none => simp [slot?, found] at h

/-- Apart from the position all is as it was. -/
theorem slot?_setAt_of_apart {slot position : List Step} (h : Apart slot position)
    (document value : Document) :
    (document.setAt slot value).slot? position = document.slot? position := by
  induction slot generalizing document position with
  | nil => exact absurd List.nil_prefix h.1
  | cons step rest ih =>
    cases position with
    | nil => exact absurd List.nil_prefix h.2
    | cons step' rest' =>
      cases document <;> cases step <;> try rfl
      case mapping.entry entries name =>
        by_cases hstep : step' = .entry name
        · subst hstep
          cases found : Entries.lookup? name entries with
          | some child =>
            rw [setAt_entry found, slot?_entry (Entries.lookup?_insert ..), slot?_entry found]
            exact ih (apart_cons.mp h) child
          | none =>
            have hrest : rest ≠ [] := fun hnil => (apart_cons.mp h).1 (hnil ▸ List.nil_prefix)
            rw [setAt, found, if_neg (by simpa using hrest)]
        · obtain ⟨after, heq, hothers⟩ := exists_setAt_mapping entries name rest value
          rw [heq]
          cases step' with
          | element j => rfl
          | entry other => rw [slot?, slot?, hothers other fun hname => hstep (hname ▸ rfl)]
      case sequence.element items i =>
        by_cases hstep : step' = .element i
        · subst hstep
          cases found : items[i]? with
          | some child =>
            have bound : i < items.length := (List.getElem?_eq_some_iff.mp found).1
            rw [setAt_element found, slot?_element (List.getElem?_set_self bound),
              slot?_element found]
            exact ih (apart_cons.mp h) child
          | none => rw [setAt, found]
        · obtain ⟨after, heq, -, hothers⟩ := exists_setAt_sequence items i rest value
          rw [heq]
          cases step' with
          | entry other => rfl
          | element j => rw [slot?, slot?, hothers j fun hposition => hstep (hposition ▸ rfl)]

/-- Above the position the same is stored in the node that is there. -/
theorem slot?_setAt_append {position slot : List Step} (document value : Document)
    (h : slot ≠ []) : (document.setAt (position ++ slot) value).slot? position
      = (document.slot? position).map fun held => held.map fun node => node.setAt slot value := by
  induction position generalizing document with
  | nil => rfl
  | cons step rest ih =>
    cases document <;> cases step <;> try rfl
    case mapping.entry entries name =>
      rw [List.cons_append]
      cases found : Entries.lookup? name entries with
      | some child =>
        rw [setAt_entry found, slot?_entry (Entries.lookup?_insert ..), slot?_entry found]
        exact ih child
      | none =>
        rw [setAt, found, if_neg (by simp [h]), slot?, found]
        cases rest <;> rfl
    case sequence.element items i =>
      rw [List.cons_append]
      cases found : items[i]? with
      | some child =>
        have bound : i < items.length := (List.getElem?_eq_some_iff.mp found).1
        rw [setAt_element found, slot?_element (List.getElem?_set_self bound),
          slot?_element found]
        exact ih child
      | none =>
        rw [setAt, found, slot?, found]
        rfl

theorem outline_setAt (document value : Document) {slot : List Step} (h : slot ≠ []) :
    (document.setAt slot value).outline = document.outline := by
  cases slot with
  | nil => exact absurd rfl h
  | cons step rest =>
    cases document <;> cases step <;> try rfl
    case mapping.entry entries name =>
      obtain ⟨after, heq, -⟩ := exists_setAt_mapping entries name rest value
      rw [heq]
      rfl
    case sequence.element items i =>
      obtain ⟨after, heq, hlength, -⟩ := exists_setAt_sequence items i rest value
      rw [heq, outline, outline, List.map_const', List.map_const', hlength]

/-- **What storing a node leaves alone.** A node that is neither at the position nor below it stays
what it is apart from what it holds, and where there is no node there is none afterwards. -/
theorem outline_at?_setAt {slot position : List Step} (h : ¬ slot <+: position)
    (document value : Document) : ((document.setAt slot value).at? position).map outline
      = (document.at? position).map outline := by
  by_cases habove : position <+: slot
  · obtain ⟨rest, rfl⟩ := habove
    have hrest : rest ≠ [] := fun hnil => h (by simp [hnil])
    have houtline : (outline ∘ fun node => node.setAt rest value) = outline :=
      funext fun node => outline_setAt node value hrest
    rw [at?, slot?_setAt_append document value hrest, at?]
    cases document.slot? position with
    | none => rfl
    | some held => rw [Option.map_some, Option.join_some, Option.join_some, Option.map_map, houtline]
  · rw [at?, slot?_setAt_of_apart ⟨h, habove⟩, at?]

end Document

end Variation
