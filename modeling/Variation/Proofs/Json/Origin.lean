import Variation.Proofs.Json.RoundTrip

/-!
# Documents that come from JSON

What a reader of JSON yields is ordered and opens no more containers than it was given room for:
objects are filled by `Entries.insert`, whatever the order of their keys in the text. With
`parseWithin_write` this says which documents without floating point numbers have a text at all:
the readable ones, and no others.
-/

namespace Variation.Json

open Document

/-- A document of ordered mappings with at most so many containers open. -/
structure Fits (room : Nat) (document : Document) : Prop where
  ordered : document.Ordered
  nesting : document.nesting ≤ room

/-- A sequence takes one container from the room that its elements fit in. -/
theorem Fits.sequence {room : Nat} {items : List Document} (h : ∀ item ∈ items, Fits room item) :
    Fits (room + 1) (.sequence items) where
  ordered := ordered_sequence.mpr fun item member => (h item member).ordered
  nesting := Nat.succ_le_succ
    (nestingOfItems_le_iff.mpr fun item member => (h item member).nesting)

theorem Fits.mapping {room : Nat} {entries : Entries Document} (ascending : entries.Ascending)
    (h : ∀ entry ∈ entries, Fits room entry.2) : Fits (room + 1) (.mapping entries) where
  ordered := ordered_mapping.mpr ⟨ascending, fun entry member => (h entry member).ordered⟩
  nesting := Nat.succ_le_succ
    (nestingOfEntries_le_iff.mpr fun entry member => (h entry member).nesting)

/-- What opens no container fits in any room. -/
theorem fits_leaf {room : Nat} (document : Document) (flat : document.nesting = 0)
    (ordered : document.Ordered) : Fits room document :=
  ⟨ordered, flat ▸ Nat.zero_le room⟩

/-- Whatever is read has a property. -/
def Yields (p : Document → Prop) (reading : Reading Document) : Prop :=
  ∀ document rest, reading = .ok (document, rest) → p document

theorem yields_error (p : Document → Prop) (stop : Stop) : Yields p (.error stop) := by
  intro document rest h
  cases h

theorem yields_ok {p : Document → Prop} {document : Document} (h : p document)
    (rest : List Char) : Yields p (.ok (document, rest)) := by
  intro _ _ heq
  cases heq
  exact h

/-! ## Numbers -/

section Number

variable {room : Nat} (negative : Bool) (significand : Nat) (exponent : Int)

/-- A number is read as one node, or it is too large to be read at all. -/
theorem yields_real (rest : List Char) :
    Yields (Fits room) (real negative significand exponent rest) := by
  -- Opened on its arguments, `real` would have its powers of ten computed.
  obtain ⟨reader, hreader⟩ : ∃ reader, reader = real := ⟨real, rfl⟩
  rw [← hreader]
  delta real at hreader
  subst hreader
  dsimp only
  generalize scaled? significand exponent = result
  cases result with
  | some x => exact yields_ok (fits_leaf (.real _) rfl trivial) rest
  | none => exact yields_error _ _

theorem yields_exponentDigits (down : Bool) (sofar : Nat) (text : List Char) :
    Yields (Fits room) (exponentDigits negative significand exponent down sofar text) := by
  induction text generalizing sofar with
  | nil => exact yields_real _ _ _ _
  | cons c rest ih =>
    unfold exponentDigits
    split
    · exact yields_real _ _ _ _
    · split
      · exact ih _
      · split
        · exact yields_ok (fits_leaf (.real _) rfl trivial) _
        · exact yields_error _ _

theorem yields_exponentPart (text : List Char) :
    Yields (Fits room) (exponentPart negative significand exponent text) := by
  unfold exponentPart
  split
  split
  · exact yields_error _ _
  · split
    · exact yields_exponentDigits _ _ _ _ _ _
    · exact yields_error _ _

theorem yields_fractionPart (places : Nat) (text : List Char) :
    Yields (Fits room) (fractionPart negative significand places text) := by
  unfold fractionPart
  split
  · exact yields_error _ _
  · split
    · simp only
      split
      · exact yields_exponentPart _ _ _ _
      · exact yields_exponentPart _ _ _ _
      · exact yields_real _ _ _ _
    · exact yields_error _ _

theorem yields_wholeOrReal (magnitude : Nat) (rest : List Char) :
    Yields (Fits room) (wholeOrReal negative magnitude rest) := by
  unfold wholeOrReal
  split
  next hdocument =>
    obtain ⟨n, -, rfl⟩ := Option.map_eq_some_iff.mp hdocument
    exact yields_ok (fits_leaf (.whole n) rfl trivial) _
  next => exact yields_real _ _ _ _

theorem yields_unsignedNumber (text : List Char) :
    Yields (Fits room) (unsignedNumber negative text) := by
  unfold unsignedNumber
  split
  · exact yields_error _ _
  · split
    · exact yields_error _ _
    · split
      · simp only
        split
        · exact yields_fractionPart _ _ _ _
        · exact yields_exponentPart _ _ _ _
        · exact yields_exponentPart _ _ _ _
        · split
          · exact yields_wholeOrReal _ _ _
          · exact yields_real _ _ _ _
      · exact yields_error _ _

theorem yields_number (text : List Char) : Yields (Fits room) (number text) := by
  unfold number
  split <;> exact yields_unsignedNumber _ _

end Number

/-! ## Containers -/

theorem yields_literal {p : Document → Prop} {meaning : Document} (h : p meaning)
    (word text : List Char) : Yields p (literal meaning word text) := by
  fun_induction literal meaning word text with
  | case1 text => exact yields_ok h text
  | case2 => exact yields_error _ _
  | case3 letter more rest ih => exact ih
  | case4 => exact yields_error _ _

section Containers

variable {item : List Char → Reading Document} {room : Nat}

/-- The items that have been seen fit, and so does the sequence in which they end up. -/
theorem yields_itemsAfter (hitem : ∀ text, Yields (Fits room) (item text)) (steps : Nat)
    {seen : List Document} (hseen : ∀ document ∈ seen, Fits room document) (text : List Char) :
    Yields (Fits (room + 1)) (itemsAfter item seen steps text) := by
  induction steps generalizing seen text with
  | zero => exact yields_error _ _
  | succ steps ih =>
    unfold itemsAfter
    split
    · exact yields_error _ _
    · refine yields_ok (Fits.sequence fun document member => ?_) _
      exact hseen document (List.mem_reverse.mp member)
    · split
      · exact yields_error _ _
      · exact yields_error _ _
      · split
        next => exact yields_error _ _
        next document more hread =>
          refine ih (fun other member => ?_) more
          rcases List.mem_cons.mp member with rfl | member
          · exact hitem _ _ _ hread
          · exact hseen other member
    · exact yields_error _ _

theorem yields_list (hitem : ∀ text, Yields (Fits room) (item text)) (text : List Char) :
    Yields (Fits (room + 1)) (list item text) := by
  unfold list
  split
  · exact yields_error _ _
  · exact yields_ok (Fits.sequence (List.forall_mem_nil _)) _
  · split
    next => exact yields_error _ _
    next document more hread =>
      refine yields_itemsAfter hitem _ (fun other member => ?_) more
      rw [List.mem_singleton.mp member]
      exact hitem _ _ _ hread

/-- The value of an entry comes from the reader of its items. -/
theorem entry_eq_ok {text more : List Char} {key : String} {document : Document}
    (h : entry item text = .ok ((key, document), more)) :
    ∃ text rest, item text = .ok (document, rest) := by
  unfold entry at h
  split at h
  · cases h
  · split at h
    · cases h
    · split at h
      · cases h
      · split at h
        · cases h
        · next hread =>
          cases h
          exact ⟨_, _, hread⟩
      · cases h
  · cases h

/-- Every entry is stored where its key belongs, so the keys ascend in whatever order they stand in
the text. -/
theorem yields_entriesAfter (hitem : ∀ text, Yields (Fits room) (item text)) (steps : Nat)
    {seen : Entries Document} (ascending : seen.Ascending)
    (hseen : ∀ entry ∈ seen, Fits room entry.2) (text : List Char) :
    Yields (Fits (room + 1)) (entriesAfter item seen steps text) := by
  induction steps generalizing seen text with
  | zero => exact yields_error _ _
  | succ steps ih =>
    unfold entriesAfter
    split
    · exact yields_error _ _
    · exact yields_ok (Fits.mapping ascending hseen) _
    · split
      · exact yields_error _ _
      · split
        next => exact yields_error _ _
        next key document more hread =>
          refine ih (Entries.ascending_insert key document ascending) (fun other member => ?_) more
          rcases Entries.mem_of_mem_insert member with rfl | member
          · obtain ⟨_, _, hvalue⟩ := entry_eq_ok hread
            exact hitem _ _ _ hvalue
          · exact hseen other member
    · exact yields_error _ _

theorem yields_object (hitem : ∀ text, Yields (Fits room) (item text)) (text : List Char) :
    Yields (Fits (room + 1)) (object item text) := by
  unfold object
  split
  · exact yields_error _ _
  · exact yields_ok (Fits.mapping List.Pairwise.nil (List.forall_mem_nil _)) _
  · split
    next => exact yields_error _ _
    next key document more hread =>
      refine yields_entriesAfter hitem _ (List.pairwise_singleton _ _) (fun other member => ?_) more
      rw [List.mem_singleton.mp member]
      obtain ⟨_, _, hvalue⟩ := entry_eq_ok hread
      exact hitem _ _ _ hvalue

end Containers

/-- What is read fits the room that the reader was given. -/
theorem yields_value (room : Nat) (text : List Char) : Yields (Fits room) (value room text) := by
  induction room using Nat.strongRecOn generalizing text with
  | ind room ih =>
    unfold value
    split
    · exact yields_error _ _
    · exact yields_literal (fits_leaf .null rfl trivial) _ _
    · exact yields_literal (fits_leaf (.boolean true) rfl trivial) _ _
    · exact yields_literal (fits_leaf (.boolean false) rfl trivial) _ _
    · split
      · exact yields_error _ _
      · exact yields_ok (fits_leaf (.text _) rfl trivial) _
    -- A container is refused without room, and otherwise leaves its parts one less.
    · cases room with
      | zero => exact yields_error _ _
      | succ inner => exact yields_list (ih inner (Nat.lt_succ_self inner)) _
    · cases room with
      | zero => exact yields_error _ _
      | succ inner => exact yields_object (ih inner (Nat.lt_succ_self inner)) _
    · split
      · exact yields_number _
      · exact yields_error _ _

theorem fits_of_parseWithin {room : Nat} {text : String} {document : Document}
    (h : parseWithin room text = .ok document) : Fits room document := by
  unfold parseWithin at h
  simp only at h
  split at h
  · cases h
  · next read rest hread =>
    split at h
    · cases h
      exact yields_value room _ _ _ hread
    · cases h

/-- **The readable documents** are those without floating point numbers that have a text. -/
theorem readable_iff_exists_text {room : Nat} {document : Document} :
    Readable room document ↔
      document.WithoutReals ∧ ∃ text, parseWithin room text = .ok document := by
  constructor
  · intro h
    exact ⟨h.whole, _, parseWithin_write Style.compact_loose h (List.forall_mem_nil _)⟩
  · rintro ⟨whole, text, hread⟩
    obtain ⟨ordered, nesting⟩ := fits_of_parseWithin hread
    exact ⟨ordered, whole, nesting⟩

end Variation.Json
