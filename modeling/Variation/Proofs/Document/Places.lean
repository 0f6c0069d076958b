import Variation.Document.Access
import Variation.Proofs.Document.Position

/-!
# The places that a path addresses

Following a path from the root ends at places, which `places` lists in the order in which they stand
in the document. A place is a slot, or it is stuck: a key on the way is missing, an index is out of
range, or a node has the wrong shape. Behind the last key of a path the slot may be empty, since the
mapping need not have the key.

The list is what reading and writing are measured against. It stops nowhere, whereas both of them
give up at a stuck place. What it says of a slot holds of the document (`slot?_of_mem_places`).
-/

namespace Variation.Document

/-- Where following a path ends. -/
inductive Place where
  /-- A slot, and the node in it, if there is one. -/
  | slot (position : List Step) (held : Option Document)
  | stuck (error : AccessError)

/-- A place of a child as a place of the node that the step leads from. -/
def Place.under (step : Step) : Place → Place
  | .slot position held => .slot (step :: position) held
  | .stuck error => .stuck error

mutual
/-- The places of a node, given those of a node that is no sequence. -/
def placesEach (visit : Document → List Place) : Document → List Place
  | .sequence items => placesItems visit 0 items
  | node => visit node

/-- The places of elements, the first of which stands at `position`. -/
def placesItems (visit : Document → List Place) (position : Nat) : List Document → List Place
  | [] => []
  | item :: rest =>
    (placesEach visit item).map (.under (.element position))
      ++ placesItems visit (position + 1) rest
end

/-- The places at the end of `segments`, `place` being the segments followed before. -/
def placesFrom (place : List Segment) : List Segment → Document → List Place
  | [], node => [.slot [] (some node)]
  | .key name :: rest, node =>
    let next := place ++ [.key name]
    node.placesEach fun
      | .mapping entries =>
        match Entries.lookup? name entries with
        | some child => (placesFrom next rest child).map (.under (.entry name))
        | none => if rest.isEmpty then [.slot [.entry name] none] else [.stuck (.missingKey next)]
      | other => [.stuck (.typeMismatch next .mapping other.shape)]
  | .index position :: rest, node =>
    let next := place ++ [.index position]
    match node with
    | .sequence items =>
      match items[position.toNat]? with
      | some child => (placesFrom next rest child).map (.under (.element position.toNat))
      | none => [.stuck (.indexOutOfRange next position items.length)]
    | other => [.stuck (.typeMismatch next .sequence other.shape)]

/-- The places that a path addresses, in document order. -/
def places (document : Document) (path : KeyPath) : List Place :=
  placesFrom [] path.segments document

/-- What the step of a key leads to at a node that is no sequence. -/
def placesKey (place : List Segment) (name : String) (rest : List Segment) :
    Document → List Place
  | .mapping entries =>
    match Entries.lookup? name entries with
    | some child =>
      (placesFrom (place ++ [.key name]) rest child).map (.under (.entry name))
    | none =>
      if rest.isEmpty then [.slot [.entry name] none]
      else [.stuck (.missingKey (place ++ [.key name]))]
  | other => [.stuck (.typeMismatch (place ++ [.key name]) .mapping other.shape)]

section Steps

variable {place rest : List Segment} {name : String} {position : UInt64} {node child : Document}

/-- A key is followed at every node under nested sequences. -/
theorem placesFrom_key :
    placesFrom place (.key name :: rest) node = node.placesEach (placesKey place name rest) := by
  rw [placesFrom]
  congr 1

theorem placesKey_of_lookup? {entries : Entries Document} (h : entries.lookup? name = some child) :
    placesKey place name rest (.mapping entries)
      = (placesFrom (place ++ [.key name]) rest child).map (.under (.entry name)) := by
  simp only [placesKey, h]

theorem placesFrom_index_of_getElem? {items : List Document}
    (h : items[position.toNat]? = some child) :
    placesFrom place (.index position :: rest) (.sequence items)
      = (placesFrom (place ++ [.index position]) rest child).map
          (.under (.element position.toNat)) := by
  simp only [placesFrom, h]

end Steps

/-! ## What the list says of a slot -/

/-- The slots of a child are slots of the node, one step further down. -/
theorem slot_mem_map_under {step : Step} {places : List Place} {position : List Step}
    {held : Option Document} : Place.slot position held ∈ places.map (.under step) ↔
      ∃ rest, position = step :: rest ∧ Place.slot rest held ∈ places := by
  constructor
  · intro h
    obtain ⟨place, member, heq⟩ := List.mem_map.mp h
    cases place with
    | stuck error => cases heq
    | slot rest held' =>
      cases heq
      exact ⟨rest, rfl, member⟩
  · rintro ⟨rest, rfl, member⟩
    exact List.mem_map.mpr ⟨_, member, rfl⟩

section Each

variable {visit : Document → List Place}

mutual
theorem slot?_of_mem_placesEach
    (h : ∀ node position held, .slot position held ∈ visit node →
      node.slot? position = some held) :
    ∀ (node : Document) (position : List Step) (held : Option Document),
      .slot position held ∈ node.placesEach visit → node.slot? position = some held
  | .sequence items => slot?_of_mem_placesItems h [] items
  | .mapping _ | .null | .boolean _ | .whole _ | .real _ | .text _ => h _

theorem slot?_of_mem_placesItems
    (h : ∀ node position held, .slot position held ∈ visit node →
      node.slot? position = some held) :
    ∀ (front items : List Document) (position : List Step) (held : Option Document),
      .slot position held ∈ placesItems visit front.length items →
        slot? (.sequence (front ++ items)) position = some held
  | _, [], _, _, member => by cases member
  | front, item :: rest, position, held, member => by
    rw [placesItems] at member
    rcases List.mem_append.mp member with member | member
    · obtain ⟨behind, rfl, hbehind⟩ := slot_mem_map_under.mp member
      have hat : (front ++ item :: rest)[front.length]? = some item := by simp
      rw [slot?_element hat]
      exact slot?_of_mem_placesEach h item behind held hbehind
    · have hrest := slot?_of_mem_placesItems h (front ++ [item]) rest position held
      rw [List.length_append, List.length_singleton, List.append_assoc] at hrest
      exact hrest member
end

end Each

/-- A slot that is listed is a slot of the document and holds what the list says. -/
theorem slot?_of_mem_places (segments place : List Segment) (node : Document)
    (position : List Step) (held : Option Document)
    (h : .slot position held ∈ placesFrom place segments node) :
    node.slot? position = some held := by
  induction segments generalizing place node position held with
  | nil =>
    cases List.mem_singleton.mp h
    rfl
  | cons segment rest ih =>
    cases segment with
    | key name =>
      rw [placesFrom_key] at h
      refine slot?_of_mem_placesEach (fun node position held h => ?_) node position held h
      cases node with
      | mapping entries =>
        cases found : Entries.lookup? name entries with
        | some child =>
          rw [placesKey_of_lookup? found] at h
          obtain ⟨behind, rfl, member⟩ := slot_mem_map_under.mp h
          rw [slot?_entry found]
          exact ih _ child behind _ member
        | none =>
          -- A key that is missing at the end of the path is a slot without a node in it.
          cases rest with
          | nil =>
            simp only [placesKey, found] at h
            cases List.mem_singleton.mp h
            simp [slot?, found]
          | cons segment more => simp [placesKey, found] at h
      | _ => simp [placesKey] at h
    | index i =>
      cases node with
      | sequence items =>
        cases found : items[i.toNat]? with
        | some child =>
          rw [placesFrom_index_of_getElem? found] at h
          obtain ⟨behind, rfl, member⟩ := slot_mem_map_under.mp h
          rw [slot?_element found]
          exact ih _ child behind _ member
        | none => simp [placesFrom, found] at h
      | _ => simp [placesFrom] at h

end Variation.Document
