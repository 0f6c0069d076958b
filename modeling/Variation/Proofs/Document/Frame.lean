import Variation.Proofs.Document.Equality
import Variation.Proofs.Document.Overwriting

/-!
# What a write changes for a reader

A write that succeeds leaves what is read at every divergent path as it was, be it a value or an
error (`get_of_diverges`). At its own path the value is read back, unless a key of the path has met
an empty sequence: the write has passed it by and the reader stops at it (`readsBack_of_replace`).

Both go level by level. Under sequences the reader asks every element and compares the answers; the
first law needs that the answers are what they were, the second that they are all the same value.
-/

namespace Variation.Document

/-! ## Divergent paths -/

section Frame

variable {place : List Segment} {read : Document → Except AccessError Document}
  {R : Entries Document → Entries Document → Prop}

theorem spread_congr
    (step : ∀ {before after}, R before after → read (.mapping after) = read (.mapping before))
    {node after : Document} (h : Throughout R node after) :
    spread place read after = spread place read node := by
  refine Throughout.induction
    (motive := fun node after => spread place read after = spread place read node)
    (fun items after => ∀ agreed,
      spreadItems place read agreed after = spreadItems place read agreed items)
    step ?_ ?_ ?_ h
  · intro items after ih
    exact ih none
  · intro agreed
    rfl
  · intro item item' rest rest' ihItem ihRest agreed
    rw [spreadItems, spreadItems, ihItem]
    cases spread place read item with
    | error e => rfl
    | ok value =>
      simp only
      rw [ihRest (some value)]

end Frame

/-- What is read along `q` does not see a write along a divergent `p`. -/
theorem lookupFrom_of_puts {p q : List Segment} (h : Diverge p q) {value : Document}
    {place : List Segment} {node after : Document} (hputs : Puts value p (some node) after) :
    lookupFrom place q after = lookupFrom place q node := by
  induction h generalizing place node after with
  | @keys a b p q ne =>
    rw [lookupFrom_key, lookupFrom_key]
    refine spread_congr ?_ hputs
    rintro entries _ ⟨child, _, rfl⟩
    simp only [readKey, Entries.lookup?_insert_of_ne child entries ne.symm]
  | @indices i j p q ne =>
    obtain ⟨items, item, child, rfl, found, _, rfl⟩ := hputs
    have apart : i.toNat ≠ j.toNat := fun h => ne (UInt64.toNat_inj.mp h)
    simp only [lookupFrom, List.getElem?_set_ne apart, List.length_set]
  | @step segment p q behind ih =>
    cases segment with
    | key name =>
      rw [lookupFrom_key, lookupFrom_key]
      refine spread_congr ?_ hputs
      rintro entries _ ⟨child, hchild, rfl⟩
      -- Something is there to be followed further, for `p` does not end at this key.
      obtain ⟨before, found⟩ : ∃ before, Entries.lookup? name entries = some before := by
        cases behind <;> exact puts_of_cons hchild
      rw [found] at hchild
      rw [readKey_of_lookup? (Entries.lookup?_insert name child entries),
        readKey_of_lookup? found, ih hchild]
    | index i =>
      obtain ⟨items, item, child, rfl, found, hchild, rfl⟩ := hputs
      have bound : i.toNat < items.length := (List.getElem?_eq_some_iff.mp found).1
      rw [lookupFrom_index_of_getElem? (List.getElem?_set_self bound),
        lookupFrom_index_of_getElem? found, ih hchild]

theorem get_of_diverges {document after value : Document} {path written : KeyPath}
    (apart : path.Diverges written) (h : (document.replace written value).done = .ok after) :
    after.get path = document.get path :=
  lookupFrom_of_puts apart.symm (replace_eq_ok.mp h)

/-! ## The path itself -/

/-- The result is `value` or, if a sequence without elements has been `met`, the error that says so. -/
def Back (value : Document) (result : Except AccessError Document) (met : Prop) : Prop :=
  (result = .ok value ∧ ¬ met) ∨ ((∃ place, result = .error (.emptySequence place)) ∧ met)

section Back

variable {place : List Segment} {read : Document → Except AccessError Document}
  {R : Entries Document → Entries Document → Prop} {value : Document} {met : Document → Prop}

theorem back_spread
    (sequence : ∀ {items}, met (.sequence items) ↔ items = [] ∨ ∃ item ∈ items, met item)
    (step : ∀ {before after}, R before after →
      Back value (read (.mapping after)) (met (.mapping before)))
    {node after : Document} (h : Throughout R node after) :
    Back value (spread place read after) (met node) := by
  -- The elements before have yielded the value, or there are none before.
  refine Throughout.induction
    (motive := fun node after => Back value (spread place read after) (met node))
    (fun items after => ∀ agreed : Option Document, agreed = none ∨ agreed = some value →
      Back value (spreadItems place read agreed after)
        ((items = [] ∧ agreed = none) ∨ ∃ item ∈ items, met item))
    step ?_ ?_ ?_ h
  · intro items after ih
    rw [sequence]
    simpa [spread] using ih none (.inl rfl)
  · rintro agreed (rfl | rfl)
    · exact .inr ⟨⟨place, rfl⟩, .inl ⟨rfl, rfl⟩⟩
    · exact .inl ⟨rfl, by simp⟩
  · intro item item' rest rest' ihItem ihRest agreed hagreed
    have agree : agreed.all (·.same value) = true := by
      rcases hagreed with rfl | rfl
      · rfl
      · exact same_refl value
    rcases ihItem with ⟨hok, hitem⟩ | ⟨⟨place', herror⟩, hitem⟩
    · rw [spreadItems, hok]
      simp only [agree, if_true]
      rcases ihRest (some value) (.inr rfl) with ⟨hrest, hnone⟩ | ⟨hrest, hmet⟩
      · refine .inl ⟨hrest, ?_⟩
        rintro (⟨hnil, _⟩ | ⟨other, member, hother⟩)
        · cases hnil
        · rcases List.mem_cons.mp member with rfl | member
          · exact hitem hother
          · exact hnone (.inr ⟨other, member, hother⟩)
      · refine .inr ⟨hrest, .inr ?_⟩
        rcases hmet with ⟨_, hnone⟩ | ⟨other, member, hother⟩
        · cases hnone
        · exact ⟨other, List.mem_cons_of_mem item member, hother⟩
    · refine .inr ⟨⟨place', ?_⟩, .inr ⟨item, List.mem_cons_self, hitem⟩⟩
      rw [spreadItems, herror]

end Back

/-- What has been put is read back, from whatever was in the slot before. -/
theorem back_of_puts {value : Document} {p : List Segment} {slot : Option Document}
    {after : Document} (hputs : Puts value p slot after) (place : List Segment) :
    Back value (lookupFrom place p after) (∃ node, slot = some node ∧ MeetsEmpty p node) := by
  induction p generalizing place slot after with
  | nil =>
    cases hputs
    refine .inl ⟨rfl, ?_⟩
    rintro ⟨node, _, h⟩
    exact not_meetsEmpty_nil h
  | cons segment rest ih =>
    obtain ⟨node, rfl⟩ := puts_of_cons hputs
    simp only [Option.some.injEq, exists_eq_left']
    cases segment with
    | key name =>
      rw [lookupFrom_key]
      refine back_spread meetsEmpty_sequence ?_ hputs
      rintro entries _ ⟨child, hchild, rfl⟩
      rw [readKey_of_lookup? (Entries.lookup?_insert name child entries), meetsEmpty_mapping]
      exact ih hchild (place ++ [.key name])
    | index position =>
      obtain ⟨items, item, child, rfl, found, hchild, rfl⟩ := hputs
      have bound : position.toNat < items.length := (List.getElem?_eq_some_iff.mp found).1
      rw [lookupFrom_index_of_getElem? (List.getElem?_set_self bound), meetsEmpty_index]
      simpa [found] using ih hchild (place ++ [.index position])

/-- A write that has made `after` of `before` is read back. -/
def ReadsBack (before : Document) (path : KeyPath) (value after : Document) : Prop :=
  Back value (after.get path) (MeetsEmpty path.segments before)

theorem readsBack_of_replace {before after value : Document} {path : KeyPath}
    (h : (before.replace path value).done = .ok after) : ReadsBack before path value after := by
  have hback := back_of_puts (replace_eq_ok.mp h) []
  simpa [ReadsBack, get] using hback

/-- **Read after write.** The value that was written is read at its path, unless a key of the path
meets a sequence without elements in the document before; then reading stops with the error that
says so. -/
theorem get_of_replace (document after value : Document) (path : KeyPath)
    (h : (document.replace path value).done = .ok after) :
    (¬ MeetsEmpty path.segments document → after.get path = .ok value) ∧
    (MeetsEmpty path.segments document →
      ∃ place, after.get path = .error (.emptySequence place)) := by
  have hback : document.ReadsBack path value after := readsBack_of_replace h
  rcases hback with ⟨hread, hmet⟩ | ⟨hread, hmet⟩
  · exact ⟨fun _ => hread, fun met => absurd met hmet⟩
  · exact ⟨fun hnot => absurd hmet hnot, fun _ => hread⟩

/-- A size is set in every pool, one of them in a sequence of its own and one that has had none
before, and read back from them; among the pools and a sequence without any it is set as well, but
not read back. -/
theorem get_of_replace_pools :
    let size : KeyPath := ⟨.key "pools", [.key "size"]⟩
    let small : Document := .mapping [("size", .text "small")]
    let large : Document := .mapping [("size", .text "large")]
    let pools (items : List Document) : Document := .mapping [("pools", .sequence items)]
    let filled := pools [small, .sequence [.mapping []]]
    let lacking := pools [small, .sequence []]
    (filled.replace size (.text "large")).done = .ok (pools [large, .sequence [large]]) ∧
      (pools [large, .sequence [large]]).get size = .ok (.text "large") ∧
      (lacking.replace size (.text "large")).done = .ok (pools [large, .sequence []]) ∧
      ∃ place, (pools [large, .sequence []]).get size = .error (.emptySequence place) := by
  intro size small large pools filled lacking
  have full : ¬ MeetsEmpty size.segments filled := by
    simp [size, filled, pools, small, KeyPath.segments, meetsEmpty_mapping, meetsEmpty_sequence,
      not_meetsEmpty_nil, Entries.lookup?]
  refine ⟨rfl, ?_, rfl, ?_⟩
  · exact (get_of_replace filled _ (.text "large") size rfl).1 full
  · refine (get_of_replace lacking _ (.text "large") size rfl).2 ?_
    -- The way goes to the second pool, which is the sequence that holds none.
    refine ⟨"size", [], .entry rfl (.element (List.mem_cons_of_mem _ List.mem_cons_self) ?_)⟩
    exact .here

end Variation.Document
