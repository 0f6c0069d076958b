import Variation.Proofs.Document.Overwriting
import Variation.Proofs.Document.Places

/-!
# What a write changes

A write at a path goes through the places that the path addresses, in document order: it stores the
value at every slot up to the first place that is stuck, and gives up there. Nothing else changes,
since the slots lie apart from each other: storing at one of them leaves the others where they are.

`writeFrom_eq_filled` is the equation; `replace_sets_slots` says in addition what is at every position
of the document afterwards, be the write complete or not.
-/

namespace Variation.Document

/-- The slots among places. -/
def slots : List Place → List (List Step)
  | [] => []
  | .slot position _ :: rest => position :: slots rest
  | .stuck _ :: rest => slots rest

/-- The slots before the first place that is stuck. -/
def reached : List Place → List (List Step)
  | .slot position _ :: rest => position :: reached rest
  | _ => []

/-- Why the first stuck place is stuck. -/
def firstFault? : List Place → Option AccessError
  | [] => none
  | .slot _ _ :: rest => firstFault? rest
  | .stuck error :: _ => some error

/-- The document with a value stored at each position in turn. -/
def fill (value : Document) (positions : List (List Step)) (document : Document) : Document :=
  positions.foldl (fun node position => node.setAt position value) document

theorem fill_cons (value : Document) (position : List Step) (rest : List (List Step))
    (document : Document) :
    fill value (position :: rest) document = fill value rest (document.setAt position value) := rfl

section Places

variable {step : Step} {front back places : List Place}

@[simp] theorem firstFault?_append :
    firstFault? (front ++ back) = (firstFault? front).or (firstFault? back) := by
  induction front with
  | nil => rfl
  | cons place rest ih => cases place <;> simp [firstFault?, ih]

@[simp] theorem firstFault?_map_under :
    firstFault? (places.map (.under step)) = firstFault? places := by
  induction places with
  | nil => rfl
  | cons place rest ih => cases place <;> simp [firstFault?, Place.under, ih]

/-- Places behind one that is stuck are not reached. -/
theorem reached_append : reached (front ++ back)
    = reached front ++ if (firstFault? front).isNone then reached back else [] := by
  induction front with
  | nil => simp [reached, firstFault?]
  | cons place rest ih => cases place <;> simp [reached, firstFault?, ih]

@[simp] theorem reached_map_under :
    reached (places.map (.under step)) = (reached places).map (step :: ·) := by
  induction places with
  | nil => rfl
  | cons place rest ih => cases place <;> simp [reached, Place.under, ih]

end Places

/-! ## A write fills the slots -/

section Fill

variable {value : Document} {positions : List (List Step)}

theorem fill_append (front back : List (List Step)) (document : Document) :
    fill value (front ++ back) document = fill value back (fill value front document) :=
  List.foldl_append

/-- What is stored below an entry is stored in its value. -/
theorem fill_entries {entries : Entries Document} {name : String} {child : Document}
    (h : entries.lookup? name = some child) :
    fill value (positions.map (.entry name :: ·)) (.mapping entries)
      = .mapping (entries.insert name (fill value positions child)) := by
  induction positions generalizing entries child with
  | nil => rw [List.map_nil, fill, fill, List.foldl_nil, List.foldl_nil, Entries.insert_of_lookup? h]
  | cons position rest ih =>
    rw [List.map_cons, fill_cons, setAt_entry h,
      ih (Entries.lookup?_insert ..), Entries.insert_insert]
    rfl

theorem fill_elements {items : List Document} {i : Nat} {child : Document}
    (h : items[i]? = some child) :
    fill value (positions.map (.element i :: ·)) (.sequence items)
      = .sequence (items.set i (fill value positions child)) := by
  induction positions generalizing items child with
  | nil =>
    obtain ⟨bound, rfl⟩ := List.getElem?_eq_some_iff.mp h
    simp [fill]
  | cons position rest ih =>
    have bound : i < items.length := (List.getElem?_eq_some_iff.mp h).1
    rw [List.map_cons, fill_cons, setAt_element h,
      ih (List.getElem?_set_self bound), List.set_set]
    rfl

end Fill

/-- A write that stores the value at the slots before the first stuck place, and fails there. -/
def filled (value : Document) (places : List Place) (document : Document) : Written :=
  ⟨fill value (reached places) document, firstFault? places⟩

section Each

variable {value : Document} {write : Document → Written} {visit : Document → List Place}

mutual
/-- If writing a node fills its slots, then writing all the nodes under nested sequences fills
theirs. -/
theorem writeEach_eq_filled (h : ∀ node, write node = filled value (visit node) node) :
    ∀ node : Document, node.writeEach write = filled value (node.placesEach visit) node
  | .sequence items => by
    have hitems := writeItems_eq_filled h [] items
    rw [List.nil_append, List.nil_append] at hitems
    exact hitems.symm
  | .mapping _ | .null | .boolean _ | .whole _ | .real _ | .text _ => h _

/-- The elements in front have been written already. -/
theorem writeItems_eq_filled (h : ∀ node, write node = filled value (visit node) node) :
    ∀ front items : List Document,
      filled value (placesItems visit front.length items) (.sequence (front ++ items))
        = ⟨.sequence (front ++ (writeItems write items).1), (writeItems write items).2⟩
  | front, [] => rfl
  | front, item :: rest => by
    have hitem := writeEach_eq_filled h item
    have hat : (front ++ item :: rest)[front.length]? = some item := by simp
    simp only [filled, placesItems, reached_append, firstFault?_append, reached_map_under,
      firstFault?_map_under, writeItems, hitem]
    -- Either the element is stuck, and the write ends in it, or all its slots are filled.
    cases hfault : firstFault? (item.placesEach visit) with
    | some fault => simp [fill_elements hat]
    | none =>
      have hrest := writeItems_eq_filled h
        (front ++ [fill value (reached (item.placesEach visit)) item]) rest
      simp only [filled, List.length_append, List.length_singleton, List.append_assoc,
        List.singleton_append, Written.mk.injEq] at hrest
      simp [fill_append, fill_elements hat, hrest]
end

end Each

theorem writeKey_eq_filled {value : Document} {place rest : List Segment} {name : String}
    (behind : ∀ (place : List Segment) (child : Document),
      writeFrom value place rest child = filled value (placesFrom place rest child) child)
    (node : Document) : writeKey value place name rest node
      = filled value (placesKey place name rest node) node := by
  cases node with
  | mapping entries =>
    cases found : Entries.lookup? name entries with
    | some child =>
      rw [placesKey_of_lookup? found, filled, reached_map_under, firstFault?_map_under,
        fill_entries found]
      cases rest with
      | nil => rfl
      | cons segment more => simp only [writeKey, found, behind, filled, List.isEmpty_cons,
          Bool.false_eq_true, if_false]
    | none =>
      cases rest with
      | nil => simp [writeKey, placesKey, found, filled, reached, firstFault?, fill, setAt]
      | cons segment more => simp [writeKey, placesKey, found, filled, reached, firstFault?, fill]
  | _ => rfl

/-- **A write fills the slots** before the first stuck place, and fails there. -/
theorem writeFrom_eq_filled (value : Document) (segments place : List Segment) (node : Document) :
    writeFrom value place segments node = filled value (placesFrom place segments node) node := by
  induction segments generalizing place node with
  | nil => rfl
  | cons segment rest ih =>
    cases segment with
    | key name =>
      rw [writeFrom_key, placesFrom_key]
      exact writeEach_eq_filled (writeKey_eq_filled ih) node
    | index position =>
      cases node with
      | sequence items =>
        cases found : items[position.toNat]? with
        | some child =>
          rw [placesFrom_index_of_getElem? found, filled, reached_map_under, firstFault?_map_under,
            fill_elements found]
          simp only [writeFrom, found, ih, filled]
        | none => simp [writeFrom, placesFrom, found, filled, reached, firstFault?, fill]
      | _ => rfl

/-! ## Slots lie apart from each other -/

theorem slots_append (front back : List Place) : slots (front ++ back) = slots front ++ slots back := by
  induction front with
  | nil => rfl
  | cons place rest ih => cases place <;> simp [slots, ih]

theorem slots_map_under (step : Step) (places : List Place) :
    slots (places.map (.under step)) = (slots places).map (step :: ·) := by
  induction places with
  | nil => rfl
  | cons place rest ih => cases place <;> simp [slots, Place.under, ih]

theorem pairwise_map_cons {step : Step} {positions : List (List Step)}
    (h : positions.Pairwise Apart) : (positions.map (step :: ·)).Pairwise Apart :=
  List.pairwise_map.mpr (h.imp apart_cons.mpr)

/-- A slot of elements starts with the index of one of them. -/
theorem le_of_mem_placesItems {visit : Document → List Place} {start : Nat}
    {items : List Document} {slot : List Step} (h : slot ∈ slots (placesItems visit start items)) :
    ∃ i rest, start ≤ i ∧ slot = .element i :: rest := by
  induction items generalizing start with
  | nil => cases h
  | cons item rest ih =>
    rw [placesItems, slots_append, slots_map_under] at h
    rcases List.mem_append.mp h with h | h
    · obtain ⟨position, -, rfl⟩ := List.mem_map.mp h
      exact ⟨start, position, Nat.le_refl start, rfl⟩
    · obtain ⟨i, position, hle, rfl⟩ := ih h
      exact ⟨i, position, Nat.le_of_succ_le hle, rfl⟩

section Each

variable {visit : Document → List Place}

mutual
theorem pairwise_placesEach (h : ∀ node, (slots (visit node)).Pairwise Apart) :
    ∀ node : Document, (slots (node.placesEach visit)).Pairwise Apart
  | .sequence items => pairwise_placesItems h 0 items
  | .mapping _ | .null | .boolean _ | .whole _ | .real _ | .text _ => h _

theorem pairwise_placesItems (h : ∀ node, (slots (visit node)).Pairwise Apart) :
    ∀ (start : Nat) (items : List Document),
      (slots (placesItems visit start items)).Pairwise Apart
  | _, [] => List.Pairwise.nil
  | start, item :: rest => by
    rw [placesItems, slots_append, slots_map_under]
    refine List.pairwise_append.mpr ⟨pairwise_map_cons (pairwise_placesEach h item),
      pairwise_placesItems h (start + 1) rest, ?_⟩
    intro first hfirst second hsecond
    obtain ⟨position, -, rfl⟩ := List.mem_map.mp hfirst
    obtain ⟨i, position', hle, rfl⟩ := le_of_mem_placesItems hsecond
    -- Slots of two elements part at the first step.
    refine apart_of_ne fun heq => ?_
    injection heq with hi
    omega
end

end Each

/-- The slots that a path addresses lie apart from each other. -/
theorem pairwise_slots (segments place : List Segment) (node : Document) :
    (slots (placesFrom place segments node)).Pairwise Apart := by
  induction segments generalizing place node with
  | nil => exact List.pairwise_singleton _ _
  | cons segment rest ih =>
    cases segment with
    | key name =>
      rw [placesFrom_key]
      refine pairwise_placesEach (fun node => ?_) node
      cases node with
      | mapping entries =>
        cases found : Entries.lookup? name entries with
        | some child =>
          rw [placesKey_of_lookup? found, slots_map_under]
          exact pairwise_map_cons (ih _ child)
        | none => cases rest <;> simp [placesKey, found, slots]
      | _ => exact List.Pairwise.nil
    | index position =>
      cases node with
      | sequence items =>
        cases found : items[position.toNat]? with
        | some child =>
          rw [placesFrom_index_of_getElem? found, slots_map_under]
          exact pairwise_map_cons (ih _ child)
        | none => simp [placesFrom, found, slots]
      | _ => exact List.Pairwise.nil

theorem mem_slots {places : List Place} {position : List Step} (h : position ∈ slots places) :
    ∃ held, Place.slot position held ∈ places := by
  induction places with
  | nil => cases h
  | cons place rest ih =>
    cases place with
    | stuck error =>
      obtain ⟨held, member⟩ := ih h
      exact ⟨held, List.mem_cons_of_mem _ member⟩
    | slot first held =>
      rcases List.mem_cons.mp h with rfl | h
      · exact ⟨held, List.mem_cons_self⟩
      · obtain ⟨held', member⟩ := ih h
        exact ⟨held', List.mem_cons_of_mem _ member⟩

/-! ## What is where after slots have been filled -/

section Fill

variable {value : Document} {positions : List (List Step)}

/-- What lies apart from all that is filled stays as it is. -/
theorem slot?_fill_of_apart {position : List Step} (h : ∀ slot ∈ positions, Apart slot position)
    (document : Document) : (fill value positions document).slot? position
      = document.slot? position := by
  induction positions generalizing document with
  | nil => rfl
  | cons slot rest ih =>
    rw [fill_cons, ih fun other member => h other (List.mem_cons_of_mem _ member),
      slot?_setAt_of_apart (h slot List.mem_cons_self)]

/-- All that is filled holds the value in the end. -/
theorem at?_fill_of_mem (hapart : positions.Pairwise Apart) {document : Document}
    (h : ∀ slot ∈ positions, (document.slot? slot).isSome = true) :
    ∀ slot ∈ positions, (fill value positions document).at? slot = some value := by
  induction positions generalizing document with
  | nil => simp
  | cons slot rest ih =>
    obtain ⟨hslot, hrest⟩ := List.pairwise_cons.mp hapart
    rw [fill_cons, List.forall_mem_cons]
    refine ⟨?_, ih hrest fun other member => ?_⟩
    · -- Nothing that is stored later is stored at, above or below the slot.
      rw [at?, slot?_fill_of_apart (fun other member => (hslot other member).symm),
        slot?_setAt_self (h slot List.mem_cons_self), Option.join_some]
    · rw [slot?_setAt_of_apart (hslot other member)]
      exact h other (List.mem_cons_of_mem _ member)

theorem outline_at?_fill {position : List Step} (h : ∀ slot ∈ positions, ¬ slot <+: position)
    (document : Document) : ((fill value positions document).at? position).map outline
      = (document.at? position).map outline := by
  induction positions generalizing document with
  | nil => rfl
  | cons slot rest ih =>
    rw [fill_cons, ih fun other member => h other (List.mem_cons_of_mem _ member),
      outline_at?_setAt (h slot List.mem_cons_self)]

end Fill

/-! ## The main result -/

/-- `after` is `before` with the value at all the positions, and nothing else changed. -/
structure Sets (value : Document) (positions : List (List Step)) (before after : Document) :
    Prop where
  eq_fill : after = fill value positions before
  stored : ∀ position ∈ positions, after.at? position = some value
  kept : ∀ position, (∀ slot ∈ positions, ¬ slot <+: position) →
    (after.at? position).map outline = (before.at? position).map outline

theorem sets_fill {value document : Document} {path : KeyPath} {positions : List (List Step)}
    (h : positions <+: slots (document.places path)) :
    Sets value positions document (fill value positions document) := by
  refine ⟨rfl, ?_, fun position hnone => outline_at?_fill hnone document⟩
  refine at?_fill_of_mem ((pairwise_slots _ _ _).sublist h.sublist) fun slot member => ?_
  obtain ⟨held, hplace⟩ := mem_slots (h.subset member)
  rw [slot?_of_mem_places _ _ _ _ _ hplace]
  rfl

/-- Places that are all slots, up to one that is stuck or to the end. -/
theorem reached_eq_slots {places : List Place} (h : ∀ error, Place.stuck error ∉ places) :
    reached places = slots places ∧ firstFault? places = none := by
  induction places with
  | nil => exact ⟨rfl, rfl⟩
  | cons place rest ih =>
    cases place with
    | stuck error => exact absurd List.mem_cons_self (h error)
    | slot position held =>
      obtain ⟨hreached, hfault⟩ := ih fun error member => h error (List.mem_cons_of_mem _ member)
      exact ⟨by rw [reached, slots, hreached], hfault⟩

/-- **What a write changes.** If no place that the path addresses is stuck, the write succeeds and
sets every slot. If a place is stuck, the write fails with the error of the first such place, and
the document afterwards has the slots before it set. Nothing else is changed in either case. -/
theorem replace_sets_slots (document value : Document) (path : KeyPath) :
    let written := document.replace path value
    ((∀ error, Place.stuck error ∉ document.places path) →
      written.fault? = none ∧
        Sets value (slots (document.places path)) document written.document) ∧
    (∀ before error behind, document.places path = before ++ .stuck error :: behind →
      (∀ error', Place.stuck error' ∉ before) →
        written.fault? = some error ∧ Sets value (slots before) document written.document) := by
  intro written
  have hwritten : written = filled value (document.places path) document :=
    writeFrom_eq_filled value path.segments [] document
  refine ⟨fun hfree => ?_, fun before error behind hplaces hfree => ?_⟩
  · obtain ⟨hreached, hfault⟩ := reached_eq_slots hfree
    rw [hwritten, filled, hreached]
    exact ⟨hfault, sets_fill (List.prefix_refl _)⟩
  · obtain ⟨hreached, hfault⟩ := reached_eq_slots hfree
    have hprefix : slots before <+: slots (document.places path) := by
      rw [hplaces, slots_append]
      exact List.prefix_append _ _
    rw [hwritten, filled, hplaces, reached_append, firstFault?_append, hfault, hreached]
    simp only [Option.isNone_none, if_true, Option.none_or, reached, firstFault?, List.append_nil,
      true_and]
    exact sets_fill hprefix

/-- A size is set in pools, one of which is in a sequence of its own and has had none. A number among
them stops the write: the pools before it have the size, the pool behind it keeps its own. -/
theorem replace_sets_slots_pools :
    let size : KeyPath := ⟨.key "pools", [.key "size"]⟩
    let sized (text : String) : Document := .mapping [("name", .null), ("size", .text text)]
    let bare : Document := .mapping [("name", .null)]
    let pools (items : List Document) : Document := .mapping [("pools", .sequence items)]
    let one : Document := .whole (.ofWord 1)
    let mismatch : AccessError := .typeMismatch [.key "pools", .key "size"] .mapping .number
    let slot (steps : List Step) : List Step := .entry "pools" :: steps ++ [.entry "size"]
    let complete := (pools [sized "small", .sequence [bare]]).replace size (.text "large")
    let stopped := (pools [sized "small", .sequence [bare, one], sized "small"]).replace size
      (.text "large")
    complete.fault? = none ∧
      complete.document = pools [sized "large", .sequence [sized "large"]] ∧
      stopped.fault? = some mismatch ∧
      stopped.document = pools [sized "large", .sequence [sized "large", one], sized "small"] ∧
      stopped.document.at? (slot [.element 1, .element 0]) = some (.text "large") ∧
      stopped.document.at? (slot [.element 2]) = some (.text "small") := by
  intro size sized bare pools one mismatch slot complete stopped
  obtain ⟨hfree, -⟩ :=
    replace_sets_slots (pools [sized "small", .sequence [bare]]) (.text "large") size
  obtain ⟨-, hstuck⟩ := replace_sets_slots
    (pools [sized "small", .sequence [bare, one], sized "small"]) (.text "large") size
  obtain ⟨hdone, hcomplete⟩ := hfree (by
    intro error member
    rcases List.mem_cons.mp member with h | member
    · cases h
    · cases List.mem_singleton.mp member)
  obtain ⟨hfault, hstopped⟩ := hstuck
    [.slot (slot [.element 0]) (some (.text "small")), .slot (slot [.element 1, .element 0]) none]
    mismatch [.slot (slot [.element 2]) (some (.text "small"))] rfl (by simp)
  refine ⟨hdone, hcomplete.eq_fill, hfault, hstopped.eq_fill, ?_, ?_⟩
  · exact hstopped.stored _ (List.mem_cons_of_mem _ List.mem_cons_self)
  · rw [hstopped.eq_fill]
    rfl

end Variation.Document
