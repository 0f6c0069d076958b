import Variation.Proofs.Document.Equality
import Variation.Proofs.Document.Places

/-!
# When a read succeeds

A read gives a value if every place that the path addresses holds a node, no key of the path comes
to a sequence without elements, and all these nodes are equal to each other; the value is the last
of them. The reader looks at less than that: it compares what one element has given with what the
next one gives, and what comes out of a sequence in a sequence is a single value. Equality of
documents is an equivalence, so the neighbours speak for all (`alike_append`).
-/

namespace Variation.Document

/-- The node at a place, if there is one. -/
def Place.held? : Place → Option Document
  | .slot _ held => held
  | .stuck _ => none

/-- The nodes at places. -/
def nodesOf (places : List Place) : List Document :=
  places.filterMap Place.held?

/-- The nodes that a path addresses, in document order. -/
def addressed (document : Document) (path : KeyPath) : List Document :=
  nodesOf (document.places path)

/-! ## Nodes that are equal to each other -/

def Alike (nodes : List Document) : Prop :=
  ∀ a ∈ nodes, ∀ b ∈ nodes, a.same b = true

theorem alike_singleton (node : Document) : Alike [node] := by
  intro a ha b hb
  rw [List.mem_singleton.mp ha, List.mem_singleton.mp hb]
  exact same_refl node

theorem alike_of_same {nodes : List Document} (node : Document)
    (h : ∀ a ∈ nodes, a.same node = true) : Alike nodes := by
  intro a ha b hb
  refine same_trans a node b (h a ha) ?_
  rw [same_comm]
  exact h b hb

theorem alike_cons {node next : Document} {nodes : List Document} (h : next ∈ nodes) :
    Alike (node :: nodes) ↔ node.same next = true ∧ Alike nodes := by
  constructor
  · intro hall
    exact ⟨hall node List.mem_cons_self next (List.mem_cons_of_mem _ h),
      fun a ha b hb => hall a (List.mem_cons_of_mem _ ha) b (List.mem_cons_of_mem _ hb)⟩
  · rintro ⟨hnode, hnodes⟩
    refine alike_of_same next fun a ha => ?_
    rcases List.mem_cons.mp ha with rfl | ha
    · exact hnode
    · exact hnodes a ha next h

/-- One of the nodes in front can stand for all of them. -/
theorem alike_append {front back : List Document} {node : Document} (h : node ∈ front) :
    Alike (front ++ back) ↔ Alike front ∧ Alike (node :: back) := by
  constructor
  · intro hall
    refine ⟨fun a ha b hb => hall a (List.mem_append_left _ ha) b (List.mem_append_left _ hb),
      alike_of_same node fun a ha => hall a ?_ node (List.mem_append_left _ h)⟩
    rcases List.mem_cons.mp ha with rfl | ha
    · exact List.mem_append_left _ h
    · exact List.mem_append_right _ ha
  · rintro ⟨hfront, hback⟩
    refine alike_of_same node fun a ha => ?_
    rcases List.mem_append.mp ha with ha | ha
    · exact hfront a ha node h
    · exact hback a (List.mem_cons_of_mem _ ha) node List.mem_cons_self

/-! ## What places yield -/

/-- All places hold nodes, which are equal to each other and to those before; the last is `value`. -/
def Yields (before : List Document) (places : List Place) (value : Document) : Prop :=
  (∀ place ∈ places, place.held?.isSome = true) ∧ Alike (before ++ nodesOf places) ∧
    (before ++ nodesOf places).getLast? = some value

theorem held?_under (step : Step) (place : Place) : (place.under step).held? = place.held? := by
  cases place <;> rfl

theorem yields_map_under {step : Step} {before : List Document} {places : List Place}
    {value : Document} :
    Yields before (places.map (.under step)) value ↔ Yields before places value := by
  have hnodes : nodesOf (places.map (.under step)) = nodesOf places := by
    rw [nodesOf, List.filterMap_map, nodesOf]
    congr 1
    exact funext fun place => held?_under step place
  simp only [Yields, hnodes, List.forall_mem_map, held?_under]

theorem not_yields {before : List Document} {places : List Place} {place : Place}
    {value : Document} (hplace : place.held? = none) (h : place ∈ places) :
    ¬ Yields before places value := by
  rintro ⟨hall, -⟩
  have hsome := hall place h
  rw [hplace] at hsome
  cases hsome

theorem yields_nil {before : List Document} {value : Document} :
    Yields before [] value ↔ Alike before ∧ before.getLast? = some value := by
  simp [Yields, nodesOf]

theorem getLast?_through {before first second : List Document} {next : Document}
    (h : first.getLast? = some next) :
    (before ++ (first ++ second)).getLast? = ([next] ++ second).getLast? := by
  rw [List.getLast?_append, List.getLast?_append, List.getLast?_append, h]
  cases second.getLast? <;> rfl

/-- The places of an element and those behind it: the value of the element stands for all nodes so
far. -/
theorem yields_append {agreed : Option Document} {places behind : List Place} {value : Document}
    (hne : places ≠ []) : Yields agreed.toList (places ++ behind) value ↔
      ∃ next, Yields [] places next ∧ agreed.all (·.same next) = true ∧
        Yields [next] behind value := by
  have hnodes : nodesOf (places ++ behind) = nodesOf places ++ nodesOf behind :=
    List.filterMap_append
  simp only [Yields, hnodes, List.forall_mem_append, List.nil_append]
  constructor
  · rintro ⟨⟨hplaces, hbehind⟩, halike, hlast⟩
    have hsome : nodesOf places ≠ [] := by
      obtain ⟨place, hmem⟩ := List.exists_mem_of_ne_nil places hne
      obtain ⟨node, hnode⟩ := Option.isSome_iff_exists.mp (hplaces place hmem)
      exact List.ne_nil_of_mem (List.mem_filterMap.mpr ⟨place, hmem, hnode⟩)
    have hnext := List.getLast?_eq_some_getLast hsome
    have hmem := List.getLast_mem hsome
    rw [← List.append_assoc, alike_append (List.mem_append_right _ hmem)] at halike
    obtain ⟨hfront, hback⟩ := halike
    rw [getLast?_through hnext] at hlast
    -- The last node of the element is what reading the element gives, and goes on to the next.
    refine ⟨_, ⟨hplaces, ?_, hnext⟩, ?_, hbehind, hback, hlast⟩
    · exact fun a ha b hb => hfront a (List.mem_append_right _ ha) b (List.mem_append_right _ hb)
    · cases agreed with
      | none => rfl
      | some before => exact ((alike_cons hmem).mp hfront).1
  · rintro ⟨next, ⟨hplaces, hfront, hnext⟩, hagreed, hbehind, hback, hlast⟩
    have hmem : next ∈ nodesOf places := List.mem_of_getLast? hnext
    refine ⟨⟨hplaces, hbehind⟩, ?_, ?_⟩
    · rw [← List.append_assoc, alike_append (List.mem_append_right _ hmem)]
      refine ⟨?_, hback⟩
      cases agreed with
      | none => exact hfront
      | some before => exact (alike_cons hmem).mpr ⟨hagreed, hfront⟩
    · rw [getLast?_through hnext]
      exact hlast

/-! ## Reading through sequences -/

/-- Reading at a node gives what the places of the node yield, unless something is met there that
has no place, as every sequence without elements has none. -/
structure ReadsAs (read : Document → Except AccessError Document)
    (visit : Document → List Place) (met : Document → Prop) : Prop where
  sequence {items : List Document} :
    met (.sequence items) ↔ items = [] ∨ ∃ item ∈ items, met item
  empty {node : Document} : visit node = [] → met node
  step {node value : Document} : read node = .ok value ↔ Yields [] (visit node) value ∧ ¬ met node

section Each

variable {place : List Segment} {read : Document → Except AccessError Document}
  {visit : Document → List Place} {met : Document → Prop}

theorem met_of_placesEach_eq_nil (h : ReadsAs read visit met) (node : Document)
    (hnil : node.placesEach visit = []) : met node := by
  cases node with
  | sequence items =>
    cases items with
    | nil => exact h.sequence.mpr (.inl rfl)
    | cons item rest =>
      rw [placesEach, placesItems, List.append_eq_nil_iff, List.map_eq_nil_iff] at hnil
      exact h.sequence.mpr (.inr ⟨item, List.mem_cons_self, met_of_placesEach_eq_nil h item hnil.1⟩)
  | _ => exact h.empty hnil

mutual
theorem spread_eq_ok (h : ReadsAs read visit met) : ∀ (node : Document) {value : Document},
    node.spread place read = .ok value ↔ Yields [] (node.placesEach visit) value ∧ ¬ met node
  | .sequence items, value => by
    rw [spread, placesEach, spreadItems_eq_ok h items 0 none, h.sequence]
    constructor
    · rintro ⟨hyields, hnone⟩
      refine ⟨hyields, ?_⟩
      rintro (rfl | ⟨item, member, hmet⟩)
      · cases (yields_nil.mp hyields).2
      · exact hnone item member hmet
    · rintro ⟨hyields, hnone⟩
      exact ⟨hyields, fun item member hmet => hnone (.inr ⟨item, member, hmet⟩)⟩
  | .mapping _, _ | .null, _ | .boolean _, _ | .whole _, _ | .real _, _ | .text _, _ => h.step

theorem spreadItems_eq_ok (h : ReadsAs read visit met) :
    ∀ (items : List Document) (start : Nat) (agreed : Option Document) {value : Document},
      spreadItems place read agreed items = .ok value ↔
        Yields agreed.toList (placesItems visit start items) value ∧ ∀ item ∈ items, ¬ met item
  | [], start, agreed, value => by
    rw [spreadItems, placesItems, yields_nil]
    cases agreed with
    | none => simp
    | some before => simp [alike_singleton]
  | item :: rest, start, agreed, value => by
    have hitem : ∀ {value : Document}, item.spread place read = .ok value ↔
      Yields [] (item.placesEach visit) value ∧ ¬ met item := spread_eq_ok h item
    have hrest := spreadItems_eq_ok h rest (start + 1)
    have hne : ¬ met item → (item.placesEach visit).map (Place.under (.element start)) ≠ [] :=
      fun hmet hnil => hmet (met_of_placesEach_eq_nil h item (List.map_eq_nil_iff.mp hnil))
    rw [placesItems, List.forall_mem_cons, spreadItems]
    constructor
    · intro hread
      split at hread
      · cases hread
      next next hnext =>
        split at hread
        next hagreed =>
          obtain ⟨hyields, hmet⟩ := hitem.mp hnext
          obtain ⟨hbehind, hmets⟩ := (hrest (some next)).mp hread
          refine ⟨(yields_append (hne hmet)).mpr ⟨next, ?_, hagreed, hbehind⟩, hmet, hmets⟩
          exact yields_map_under.mpr hyields
        · cases hread
    · rintro ⟨hyields, hmet, hmets⟩
      obtain ⟨next, hnext, hagreed, hbehind⟩ := (yields_append (hne hmet)).mp hyields
      rw [hitem.mpr ⟨yields_map_under.mp hnext, hmet⟩]
      simp only [hagreed, if_true]
      exact (hrest (some next)).mpr ⟨hbehind, hmets⟩
end

end Each

/-! ## Reading along a path -/

/-- The step of a key, given what happens behind it. -/
theorem readsAs_key {place rest : List Segment} {name : String}
    (empty : ∀ {place child}, placesFrom place rest child = [] → MeetsEmpty rest child)
    (behind : ∀ {place child value}, lookupFrom place rest child = .ok value ↔
      Yields [] (placesFrom place rest child) value ∧ ¬ MeetsEmpty rest child) :
    ReadsAs (readKey place name rest) (placesKey place name rest)
      (MeetsEmpty (.key name :: rest)) where
  sequence := meetsEmpty_sequence
  empty {node} h := by
    cases node with
    | mapping entries =>
      rw [meetsEmpty_mapping]
      cases found : Entries.lookup? name entries with
      | some child =>
        rw [placesKey_of_lookup? found, List.map_eq_nil_iff] at h
        exact ⟨child, rfl, empty h⟩
      | none => cases rest <;> simp [placesKey, found] at h
    | _ => cases h
  step {node value} := by
    cases node with
    | mapping entries =>
      rw [meetsEmpty_mapping]
      cases found : Entries.lookup? name entries with
      | some child =>
        rw [readKey_of_lookup? found, placesKey_of_lookup? found, yields_map_under, behind]
        simp
      | none =>
        have hstuck : ¬ Yields [] (placesKey place name rest (.mapping entries)) value := by
          simp only [placesKey, found]
          split
          · exact not_yields rfl List.mem_cons_self
          · exact not_yields rfl List.mem_cons_self
        simp [readKey, found, hstuck]
    | _ =>
      simp only [readKey, reduceCtorEq, false_iff, not_and]
      exact fun h => absurd h (not_yields rfl List.mem_cons_self)

theorem lookupFrom_eq_ok {segments : List Segment} :
    (∀ {place node}, placesFrom place segments node = [] → MeetsEmpty segments node) ∧
    ∀ {place node value}, lookupFrom place segments node = .ok value ↔
      Yields [] (placesFrom place segments node) value ∧ ¬ MeetsEmpty segments node := by
  induction segments with
  | nil =>
    refine ⟨fun {place node} h => (List.cons_ne_nil _ _ h).elim, fun {place node value} => ?_⟩
    have hyields : Yields [] [.slot [] (some node)] value ↔ node = value := by
      simp [Yields, nodesOf, Place.held?, alike_singleton]
    rw [lookupFrom, placesFrom, hyields]
    simp [not_meetsEmpty_nil]
  | cons segment rest ih =>
    obtain ⟨empty, behind⟩ := ih
    cases segment with
    | key name =>
      refine ⟨fun {place node} h => ?_, fun {place node value} => ?_⟩
      · rw [placesFrom_key] at h
        exact met_of_placesEach_eq_nil (readsAs_key empty behind) node h
      · rw [lookupFrom_key, placesFrom_key]
        exact spread_eq_ok (readsAs_key empty behind) node
    | index position =>
      refine ⟨fun {place node} h => ?_, fun {place node value} => ?_⟩
      · cases node with
        | sequence items =>
          cases found : items[position.toNat]? with
          | some child =>
            rw [placesFrom_index_of_getElem? found, List.map_eq_nil_iff] at h
            exact meetsEmpty_index.mpr ⟨child, found, empty h⟩
          | none => simp [placesFrom, found] at h
        | _ => cases h
      · cases node with
        | sequence items =>
          rw [meetsEmpty_index]
          cases found : items[position.toNat]? with
          | some child =>
            rw [lookupFrom_index_of_getElem? found, placesFrom_index_of_getElem? found,
              yields_map_under, behind]
            simp
          | none =>
            simp only [lookupFrom, placesFrom, found, reduceCtorEq, false_iff, not_and]
            exact fun h => absurd h (not_yields rfl List.mem_cons_self)
        | _ =>
          simp only [lookupFrom, placesFrom, reduceCtorEq, false_iff, not_and]
          exact fun h => absurd h (not_yields rfl List.mem_cons_self)

/-! ## The main result -/

/-- **When a read succeeds.** It gives a value if and only if every place that the path addresses
holds a node, so that none is stuck, no key of the path comes to a sequence without elements, and
all nodes that are addressed are equal to each other; the value is the last of them. Hence no node
that is addressed differs from the value. -/
theorem get_eq_ok_iff (document value : Document) (path : KeyPath) :
    (document.get path = .ok value ↔
      (∀ place ∈ document.places path, place.held?.isSome = true) ∧
      ¬ MeetsEmpty path.segments document ∧
      (∀ a ∈ document.addressed path, ∀ b ∈ document.addressed path, a.same b = true) ∧
      (document.addressed path).getLast? = some value) ∧
    (document.get path = .ok value → ∀ node ∈ document.addressed path, node.same value = true) := by
  have hread : document.get path = .ok value ↔
      Yields [] (document.places path) value ∧ ¬ MeetsEmpty path.segments document :=
    lookupFrom_eq_ok.2
  refine ⟨?_, fun hget node member => ?_⟩
  · rw [hread]
    constructor
    · rintro ⟨⟨hplaces, halike, hlast⟩, hmet⟩
      exact ⟨hplaces, hmet, halike, hlast⟩
    · rintro ⟨hplaces, hmet, halike, hlast⟩
      exact ⟨⟨hplaces, halike, hlast⟩, hmet⟩
  · obtain ⟨⟨-, halike, hlast⟩, -⟩ := hread.mp hget
    exact halike node member value (List.mem_of_getLast? hlast)

/-- Pools whose weights are the two zeros, one of them in a sequence of its own, agree on the weight,
which is read from the last. The whole number one and the floating point number one are no weight
that two pools agree on, nor is there any where one of the pools is a sequence without elements. -/
theorem get_eq_ok_iff_weights :
    let weight : KeyPath := ⟨.key "pools", [.key "weight"]⟩
    let pool (value : Document) : Document := .mapping [("weight", value)]
    let pools (items : List Document) : Document := .mapping [("pools", .sequence items)]
    let plus : Document := .real (.zero false)
    let minus : Document := .real (.zero true)
    let whole : Document := .whole (.ofWord 1)
    let point : Document := .real ⟨false, 1023 * 2 ^ 52, by decide⟩
    (pools [pool plus, .sequence [pool minus]]).get weight = .ok minus ∧
      plus.same minus = true ∧
      (∀ value, (pools [pool whole, pool point]).get weight ≠ .ok value) ∧
      ∀ value, (pools [pool whole, .sequence []]).get weight ≠ .ok value := by
  intro weight pool pools plus minus whole point
  have hread : (pools [pool plus, .sequence [pool minus]]).get weight = .ok minus := rfl
  refine ⟨hread, ?_, fun value hget => ?_, fun value hget => ?_⟩
  · exact (get_eq_ok_iff _ minus weight).2 hread plus List.mem_cons_self
  · obtain ⟨-, -, halike, -⟩ := (get_eq_ok_iff _ value weight).1.mp hget
    have hsame := halike whole List.mem_cons_self point (List.mem_cons_of_mem _ List.mem_cons_self)
    cases hsame
  · obtain ⟨-, hmet, -, -⟩ := (get_eq_ok_iff _ value weight).1.mp hget
    -- The way goes to the second pool, which is the sequence that holds none.
    refine hmet ⟨"weight", [], .entry rfl (.element (List.mem_cons_of_mem _ List.mem_cons_self) ?_)⟩
    exact .here

end Variation.Document
