import Variation.Proofs.Codec.Decoding
import Variation.Proofs.Path.Text

/-!
# Key paths in list form

The list form has an item for each segment, and its kind tells a key from a position: a text is
always a key, and a whole number always a position. So nothing is lost when a path is written as a
list (`keyPath_encode`), and what is read as a path is its list form and no other document
(`keyPath_decode_eq_ok`). `Item` says which items a list form may have, without the reader.

The text of a path is not as faithful. A key with a point in it, one that starts with a bracket and
the empty key have no text that gives them back, but they have a list form.
-/

namespace Variation

theorem Whole.ofWord_toNat {n : Whole} (h : 0 ≤ n.value) :
    Whole.ofWord (UInt64.ofNat n.value.toNat) = n := by
  obtain ⟨value, lower, upper⟩ := n
  have hbound : value.toNat < 2 ^ 64 := by omega
  have hword : (UInt64.ofNat value.toNat).toNat = value.toNat :=
    UInt64.toNat_ofNat_of_lt' hbound
  have hvalue : ((UInt64.ofNat value.toNat).toNat : Int) = value := by
    rw [hword]
    exact Int.toNat_of_nonneg h
  simp only [Whole.ofWord, hvalue]

namespace KeyPath

/-- What an item of a list form can be: any text, or a whole number that is a position. -/
inductive Item : Document → Prop where
  | text (name : String) : Item (.text name)
  | whole {n : Whole} (lower : 0 ≤ n.value) (upper : n.value < 2 ^ 64) : Item (.whole n)

end KeyPath

open KeyPath (Item)

theorem Segment.item_document (s : Segment) : Item s.document := by
  cases s with
  | key name => exact .text name
  | index position => exact .whole (Int.natCast_nonneg _) (Whole.ofWord position).upper

/-- An item is the list form of one segment. -/
theorem exists_document_of_item {document : Document} (h : Item document) :
    ∃ s : Segment, document = s.document := by
  cases h with
  | text name => exact ⟨.key name, rfl⟩
  | @whole n lower upper =>
    refine ⟨.index (UInt64.ofNat n.value.toNat), ?_⟩
    rw [Segment.document, Whole.ofWord_toNat lower]

namespace Codec

/-! ## Lists of which every item is known -/

section Each

variable {α β ε : Type} {f : α → Except ε β} {g : β → α}

/-- Where an item is known by its value, a list is known by its values. -/
theorem each_eq_ok_map (hitem : ∀ item value, f item = .ok value ↔ item = g value)
    {items : List α} {values : List β} : each f items = .ok values ↔ items = values.map g := by
  induction items generalizing values with
  | nil => simp [each, eq_comm]
  | cons item rest ih =>
    simp only [each_cons_eq_ok, hitem, ih]
    constructor
    · rintro ⟨value, behind, rfl, rfl, rfl⟩
      rfl
    · intro h
      cases values with
      | nil => cases h
      | cons value behind =>
        obtain ⟨rfl, rfl⟩ := List.cons.inj h
        exact ⟨value, behind, rfl, rfl, rfl⟩

end Each

/-! ## Segments and paths -/

theorem segment_encode (s : Segment) : segment.encode s = .ok s.document := by
  cases s <;> rfl

theorem segment_decode_eq_ok (document : Document) (s : Segment) :
    segment.decode document = .ok s ↔ document = s.document := by
  constructor
  · intro h
    cases document with
    | text name =>
      cases h
      rfl
    | whole n =>
      simp only [segment] at h
      split at h
      next lower =>
        cases h
        rw [Segment.document, Whole.ofWord_toNat lower]
      next => cases h
    | _ => cases h
  · intro h
    rw [h, segment_decode]

theorem keyPath_encode (path : KeyPath) : keyPath.encode path = .ok path.document := by
  have heach : each segment.encode (path.segments.map id)
      = .ok (path.segments.map Segment.document) := each_map fun s _ => segment_encode s
  rw [List.map_id] at heach
  show (each segment.encode path.segments).map Document.sequence = .ok path.document
  rw [heach]
  rfl

/-- **What is read as a path** is its list form and nothing else. -/
theorem keyPath_decode_eq_ok {document : Document} {path : KeyPath} :
    keyPath.decode document = .ok path ↔ document = path.document := by
  constructor
  · intro h
    cases document with
    | sequence items =>
      simp only [keyPath, list, decodeList] at h
      cases heach : each segment.decode items with
      | error reason =>
        rw [heach] at h
        cases h
      | ok segments =>
        have hitems : items = segments.map Segment.document :=
          (each_eq_ok_map segment_decode_eq_ok).mp heach
        rw [heach] at h
        cases hpath : KeyPath.ofSegments? segments with
        | none => simp [hpath] at h
        | some found =>
          simp only [hpath, Option.elim_some, Except.ok.injEq] at h
          have hsegments := KeyPath.segments_of_ofSegments? hpath
          rw [KeyPath.document, ← h, hsegments, hitems]
    | _ => cases h
  · intro h
    rw [h, keyPath_decode]

theorem copy_keyPath (path : KeyPath) : keyPath.copy path = .ok path := by
  rw [copy, keyPath_encode]
  simp only [keyPath_decode]

/-- A list of items that is not empty is the list form of a path. -/
theorem exists_keyPath_of_items {items : List Document} (hne : items ≠ [])
    (hitems : ∀ item ∈ items, Item item) : ∃ path : KeyPath, path.document = .sequence items := by
  have hsegments : ∃ segments : List Segment, items = segments.map Segment.document := by
    clear hne
    induction items with
    | nil => exact ⟨[], rfl⟩
    | cons item rest ih =>
      obtain ⟨s, rfl⟩ := exists_document_of_item (hitems item List.mem_cons_self)
      obtain ⟨behind, rfl⟩ := ih fun other member => hitems other (List.mem_cons_of_mem _ member)
      exact ⟨s :: behind, rfl⟩
  obtain ⟨segments, rfl⟩ := hsegments
  cases segments with
  | nil => exact absurd rfl hne
  | cons first rest => exact ⟨⟨first, rest⟩, rfl⟩

/-- **The list form is exact.** A document is read as a path if and only if it is what the path is
written as. The documents that are read as some path are the sequences of at least one item whose
items are texts and whole numbers that are positions. Every path is written, and read back from
what is written, those among them that no text gives. -/
theorem keyPath_list_form :
    (∀ document path, keyPath.decode document = .ok path ↔ keyPath.encode path = .ok document) ∧
    (∀ document, (∃ path, keyPath.decode document = .ok path) ↔
      ∃ items, document = .sequence items ∧ items ≠ [] ∧ ∀ item ∈ items, Item item) ∧
    (∀ path, keyPath.copy path = .ok path) := by
  refine ⟨fun document path => ?_, fun document => ?_, copy_keyPath⟩
  · rw [keyPath_decode_eq_ok, keyPath_encode, Except.ok.injEq]
    exact eq_comm
  · constructor
    · rintro ⟨path, hpath⟩
      refine ⟨_, keyPath_decode_eq_ok.mp hpath, by simp [KeyPath.segments], ?_⟩
      intro item member
      obtain ⟨s, -, rfl⟩ := List.mem_map.mp member
      exact s.item_document
    · rintro ⟨items, rfl, hne, hitems⟩
      obtain ⟨path, hpath⟩ := exists_keyPath_of_items hne hitems
      exact ⟨path, keyPath_decode_eq_ok.mpr hpath.symm⟩

/-- Keys that no text gives back, and the last position. -/
example :
    let path : KeyPath := ⟨.key "a.b", [.key "[0]", .key "", .index 18446744073709551615]⟩
    ¬ path.Legible ∧ (keyPath.copy path).toOption = some path := by
  refine ⟨fun h => ?_, by decide⟩
  have hpoint := (h.1 (.key "a.b") List.mem_cons_self).2.1
  exact hpoint (by decide)

end Codec

end Variation
