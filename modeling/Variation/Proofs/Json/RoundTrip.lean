import Variation.Proofs.Document.Nodes
import Variation.Proofs.Json.Token

/-!
# JSON texts that read back

A document is read back from its JSON text in every style whose gaps are blank. The text of a
document starts with a character that is neither blank nor a closing bracket (`starts_write`), so
that a reader which passes over a gap comes to the text itself; and the text of a list or an object
goes on, behind each of its parts, with a comma, a bracket or a gap, none of which goes on with a
number.

Readers of lists and objects count their steps. They take one for each further item and one for the
bracket at the end, and they are given one for each character left.
-/

namespace Variation.Json

open Document

/-! ## Gaps -/

/-- A text of characters that a reader passes over. -/
def Blank (gap : List Char) : Prop :=
  ∀ c ∈ gap, isSpace c = true

/-- Whatever a style puts between tokens is blank. -/
structure Style.Loose (style : Style) : Prop where
  gap : ∀ depth, Blank (style.gap depth)
  afterColon : Blank style.afterColon

theorem Style.compact_loose : Style.compact.Loose where
  gap _ := by simp [Blank, Style.compact]
  afterColon := by simp [Blank, Style.compact]

theorem Style.pretty_loose : Style.pretty.Loose where
  gap depth := by
    intro c hc
    rcases List.mem_cons.mp hc with rfl | hc
    · rfl
    · rw [List.eq_of_mem_replicate hc]
      rfl
  afterColon := by
    intro c hc
    rw [List.mem_singleton.mp hc]
    rfl

/-- A gap is passed over. -/
theorem skipSpace_append {gap : List Char} (h : Blank gap) (text : List Char) :
    skipSpace (gap ++ text) = skipSpace text := by
  induction gap with
  | nil => rfl
  | cons c rest ih =>
    have hc : isSpace c = true := h c List.mem_cons_self
    rw [← ih fun c hc => h c (List.mem_cons_of_mem _ hc), List.cons_append, skipSpace,
      List.dropWhile_cons_of_pos hc]
    rfl

theorem skipSpace_cons {c : Char} (h : isSpace c = false) (text : List Char) :
    skipSpace (c :: text) = c :: text := by
  rw [skipSpace, List.dropWhile_cons_of_neg (by simp [h])]

theorem skipSpace_of_blank {gap : List Char} (h : Blank gap) : skipSpace gap = [] := by
  rw [← List.append_nil gap, skipSpace_append h]
  rfl

/-- A blank does not go on with a number. -/
theorem breaks_of_isSpace {c : Char} (h : isSpace c = true) :
    isDigit c = false ∧ c ≠ '.' ∧ c ≠ 'e' ∧ c ≠ 'E' := by
  simp only [isSpace, Bool.or_eq_true, decide_eq_true_eq] at h
  rcases h with ((rfl | rfl) | rfl) | rfl <;> decide

theorem breaks_of_blank {gap : List Char} (h : Blank gap) : Breaks gap := by
  rintro c rest rfl
  exact breaks_of_isSpace (h c List.mem_cons_self)

/-- Nor does a gap, if what stands behind it does not either. -/
theorem breaks_append {gap text : List Char} (h : Blank gap) (htext : Breaks text) :
    Breaks (gap ++ text) := by
  cases gap with
  | nil => exact htext
  | cons c rest => exact breaks_cons (breaks_of_isSpace (h c List.mem_cons_self))

/-! ## How texts start and go on -/

/-- A character that can start the text of a document. -/
def Opens (c : Char) : Prop :=
  isSpace c = false ∧ c ≠ ']'

/-- A text in which a reader passes over nothing before a document, and finds no end of a list. -/
def Starts (text : List Char) : Prop :=
  ∃ c rest, text = c :: rest ∧ Opens c

theorem Starts.skipSpace_eq {text : List Char} (h : Starts text) : skipSpace text = text := by
  obtain ⟨c, rest, rfl, hc⟩ := h
  exact skipSpace_cons hc.1 rest

/-- The text of a whole number starts with its sign or with a digit. -/
theorem exists_decimal (n : Whole) :
    ∃ c rest, Text.Numeral.decimal n.value = c :: rest ∧ (c = '-' ∨ isDigit c = true) := by
  rw [Text.Numeral.decimal]
  by_cases hneg : n.value < 0
  · rw [if_pos hneg]
    exact ⟨_, _, rfl, .inl rfl⟩
  · rw [if_neg hneg]
    cases hdigits : Nat.toDigits 10 n.value.natAbs with
    | nil => exact absurd hdigits Nat.toDigits_ne_nil
    | cons c rest =>
      obtain ⟨d, hd, rfl⟩ := Text.Numeral.mem_toDigits (hdigits ▸ List.mem_cons_self)
      exact ⟨_, _, rfl, .inr (isDigit_digitChar hd)⟩

theorem opens_of_number {c : Char} (h : c = '-' ∨ isDigit c = true) : Opens c := by
  rcases h with rfl | h
  · exact ⟨rfl, by decide⟩
  · constructor
    · cases hspace : isSpace c with
      | false => rfl
      | true =>
        have hdigit := (breaks_of_isSpace hspace).1
        rw [h] at hdigit
        cases hdigit
    · rintro rfl
      exact absurd h (by decide)

/-- A reader knows by a sign or a digit that a number follows. -/
theorem value_of_number {c : Char} (h : c = '-' ∨ isDigit c = true) (room : Nat)
    (text : List Char) : value room (c :: text) = number (c :: text) := by
  rw [value.eq_def]
  rcases h with rfl | h
  · rfl
  · have differs : ∀ other, isDigit other = false → c ≠ other := by
      rintro _ hother rfl
      rw [h] at hother
      cases hother
    have hn : c ≠ 'n' := differs _ rfl
    have ht : c ≠ 't' := differs _ rfl
    have hf : c ≠ 'f' := differs _ rfl
    have hquote : c ≠ '"' := differs _ rfl
    have hlist : c ≠ '[' := differs _ rfl
    have hobject : c ≠ '{' := differs _ rfl
    split
    simp only [h, Bool.or_true, if_true]

/-- What is written starts with a character that is neither passed over nor taken for the end of a
list. -/
theorem starts_write {style : Style} {depth : Nat} {document : Document}
    (h : document.WithoutReals) (behind : List Char) :
    Starts (style.write depth document ++ behind) := by
  cases document with
  | whole n =>
    obtain ⟨c, rest, htext, hc⟩ := exists_decimal n
    rw [Style.write, htext]
    exact ⟨c, rest ++ behind, rfl, opens_of_number hc⟩
  | real x => exact absurd h (not_withoutReals_real x)
  | boolean value => cases value <;> exact ⟨_, _, rfl, rfl, by decide⟩
  | sequence items => cases items <;> exact ⟨_, _, rfl, rfl, by decide⟩
  | mapping entries => cases entries <;> exact ⟨_, _, rfl, rfl, by decide⟩
  | null => exact ⟨_, _, rfl, rfl, by decide⟩
  | text s => exact ⟨_, _, rfl, rfl, by decide⟩

/-! ## Steps of the readers of containers -/

section Steps

variable {item : List Char → Reading Document} {gap text more : List Char} {document : Document}

/-- The bracket at the end takes one step. -/
theorem itemsAfter_close (hgap : Blank gap) (seen : List Document) (steps : Nat) :
    itemsAfter item seen (steps + 1) (gap ++ ']' :: more)
      = .ok (.sequence seen.reverse, more) := by
  rw [itemsAfter, skipSpace_append hgap, skipSpace_cons (by decide)]
  rfl

/-- An item takes one step, with the comma in front of it, and joins those that have been seen. -/
theorem itemsAfter_comma (hgap : Blank gap) (hstarts : Starts text)
    (hread : item text = .ok (document, more)) (seen : List Document) (steps : Nat) :
    itemsAfter item seen (steps + 1) (',' :: (gap ++ text))
      = itemsAfter item (document :: seen) steps more := by
  rw [itemsAfter, skipSpace_cons (by decide)]
  simp only
  rw [skipSpace_append hgap, hstarts.skipSpace_eq]
  obtain ⟨c, rest, rfl, hc⟩ := hstarts
  split
  next heq => cases heq
  next heq => exact absurd (List.cons.inj heq).1 hc.2
  next => rw [hread]

/-- The first item has no comma in front of it. The steps for the others are counted from where it
starts. -/
theorem list_item (hgap : Blank gap) (hstarts : Starts text)
    (hread : item text = .ok (document, more)) :
    list item (gap ++ text) = itemsAfter item [document] (text.length + 1) more := by
  rw [list, skipSpace_append hgap, hstarts.skipSpace_eq]
  obtain ⟨c, rest, rfl, hc⟩ := hstarts
  split
  next heq => cases heq
  next heq => exact absurd (List.cons.inj heq).1 hc.2
  next => rw [hread]

theorem skipSpace_string (style : Style) (s : String) (text : List Char) :
    skipSpace (style.string s ++ text) = style.string s ++ text :=
  skipSpace_cons (by decide) _

/-- The key of an entry is read up to its quote, and its value behind the colon. -/
theorem entry_string {style : Style} (hcolon : Blank style.afterColon) (hstarts : Starts text)
    (hread : item text = .ok (document, more)) (key : String) :
    entry item (style.string key ++ ':' :: (style.afterColon ++ text))
      = .ok ((key, document), more) := by
  rw [Style.string, List.append_assoc, List.singleton_append]
  simp only [List.cons_append, entry, stringAfterQuote_string]
  rw [skipSpace_cons (by decide)]
  simp only
  rw [skipSpace_append hcolon, hstarts.skipSpace_eq, hread]

theorem entriesAfter_close (hgap : Blank gap) (seen : Entries Document) (steps : Nat) :
    entriesAfter item seen (steps + 1) (gap ++ '}' :: more) = .ok (.mapping seen, more) := by
  rw [entriesAfter, skipSpace_append hgap, skipSpace_cons (by decide)]
  rfl

/-- An entry takes one step as an item does, and is stored among those that have been seen. -/
theorem entriesAfter_comma {style : Style} {key : String} (hgap : Blank gap)
    (hread : entry item (style.string key ++ text) = .ok ((key, document), more))
    (seen : Entries Document) (steps : Nat) :
    entriesAfter item seen (steps + 1) (',' :: (gap ++ (style.string key ++ text)))
      = entriesAfter item (seen.insert key document) steps more := by
  rw [entriesAfter, skipSpace_cons (by decide)]
  simp only
  rw [skipSpace_append hgap, skipSpace_string]
  split
  next heq => exact absurd (List.cons.inj heq).1 (by decide)
  next => rw [hread]

theorem object_entry {style : Style} {key : String} (hgap : Blank gap)
    (hread : entry item (style.string key ++ text) = .ok ((key, document), more)) :
    object item (gap ++ (style.string key ++ text))
      = entriesAfter item [(key, document)] ((style.string key ++ text).length + 1) more := by
  rw [object, skipSpace_append hgap, skipSpace_string]
  split
  next heq => cases heq
  next heq => exact absurd (List.cons.inj heq).1 (by decide)
  next => rw [hread]

end Steps

/-! ## Documents -/

/-- A document of whole numbers and ordered mappings with at most so many containers open. -/
structure Readable (room : Nat) (document : Document) : Prop where
  ordered : document.Ordered
  whole : document.WithoutReals
  nesting : document.nesting ≤ room

instance (room : Nat) (document : Document) : Decidable (Readable room document) :=
  decidable_of_iff (document.Ordered ∧ document.WithoutReals ∧ document.nesting ≤ room)
    ⟨fun h => ⟨h.1, h.2.1, h.2.2⟩, fun h => ⟨h.ordered, h.whole, h.nesting⟩⟩

/-- Inside a sequence there is room for one container less. -/
theorem Readable.of_sequence {room : Nat} {items : List Document}
    (h : Readable room (.sequence items)) :
    ∃ inner, room = inner + 1 ∧ ∀ item ∈ items, Readable inner item := by
  obtain ⟨ordered, whole, nesting⟩ := h
  rw [ordered_sequence] at ordered
  rw [withoutReals_sequence] at whole
  rw [Document.nesting] at nesting
  refine ⟨room - 1, by omega, fun item member => ⟨ordered item member, whole item member, ?_⟩⟩
  exact nestingOfItems_le_iff.mp (by omega) item member

theorem Readable.of_mapping {room : Nat} {entries : Entries Document}
    (h : Readable room (.mapping entries)) :
    ∃ inner, room = inner + 1 ∧ Entries.Ascending entries ∧
      ∀ entry ∈ entries, Readable inner entry.2 := by
  obtain ⟨ordered, whole, nesting⟩ := h
  rw [ordered_mapping] at ordered
  rw [withoutReals_mapping] at whole
  rw [Document.nesting] at nesting
  refine ⟨room - 1, by omega, ordered.1, fun entry member => ?_⟩
  refine ⟨ordered.2 entry member, whole entry member, ?_⟩
  exact nestingOfEntries_le_iff.mp (by omega) entry member

section Length

variable (style : Style) (depth : Nat)

/-- Each item has a character of its own, so one step for each character is enough. -/
theorem length_le_writeItems (items : List Document) :
    items.length ≤ (style.writeItems depth items).length := by
  induction items with
  | nil => exact Nat.le_refl 0
  | cons item rest ih =>
    simp only [Style.writeItems, List.length_append, List.length_cons]
    omega

theorem length_le_writeEntries (entries : Entries Document) :
    entries.length ≤ (style.writeEntries depth entries).length := by
  induction entries with
  | nil => exact Nat.le_refl 0
  | cons entry rest ih =>
    simp only [Style.writeEntries, List.length_append, List.length_cons]
    omega

end Length

/-- Items go on with no number: each of them has a comma in front. -/
theorem breaks_writeItems {style : Style} {depth : Nat} {items : List Document} {text : List Char}
    (h : Breaks text) : Breaks (style.writeItems depth items ++ text) := by
  cases items with
  | nil => exact h
  | cons item rest => exact breaks_cons (by decide)

theorem breaks_writeEntries {style : Style} {depth : Nat} {entries : Entries Document}
    {text : List Char} (h : Breaks text) : Breaks (style.writeEntries depth entries ++ text) := by
  cases entries with
  | nil => exact h
  | cons entry rest => exact breaks_cons (by decide)

mutual
/-- **A document is read back from its text**, whatever stands behind and does not go on with it. -/
theorem value_write {style : Style} (hstyle : style.Loose) :
    ∀ (document : Document) (depth room : Nat) {more : List Char}, Readable room document →
      Breaks more → value room (style.write depth document ++ more) = .ok (document, more)
  | .null, _, _, _, _, _ | .boolean true, _, _, _, _, _ | .boolean false, _, _, _, _, _ => by
    simp [Style.write, value, literal]
  | .whole n, _, room, more, _, hmore => by
    obtain ⟨c, rest, hdecimal, hc⟩ := exists_decimal n
    have hnumber := number_decimal n hmore
    rw [hdecimal, List.cons_append] at hnumber
    rw [Style.write, hdecimal, List.cons_append, value_of_number hc]
    exact hnumber
  | .real x, _, _, _, h, _ => absurd h.whole (not_withoutReals_real x)
  | .text s, _, room, more, _, _ => by
    rw [Style.write, Style.string, List.append_assoc, List.singleton_append]
    simp only [List.cons_append, value, stringAfterQuote_string]
  | .sequence [], depth, room, more, h, _ => by
    obtain ⟨inner, rfl, -⟩ := h.of_sequence
    rfl
  | .sequence (first :: rest), depth, room, more, h, hmore => by
    obtain ⟨inner, rfl, hitems⟩ := h.of_sequence
    have hfirst := hitems first List.mem_cons_self
    have hrest : ∀ item ∈ rest, Readable inner item :=
      fun item member => hitems item (List.mem_cons_of_mem first member)
    -- The first item is read where it stands: in front of the others, a gap and the bracket.
    let behind := style.writeItems (depth + 1) rest ++ (style.gap depth ++ ']' :: more)
    have hbehind : Breaks behind :=
      breaks_writeItems (breaks_append (hstyle.gap depth) (breaks_cons (by decide)))
    let text := style.write (depth + 1) first ++ behind
    have hread : value inner text = .ok (first, behind) :=
      value_write hstyle first (depth + 1) inner hfirst hbehind
    have hsteps : rest.length < text.length + 1 := by
      have hlength := length_le_writeItems style (depth + 1) rest
      simp only [text, behind, List.length_append]
      omega
    calc value (inner + 1) (style.write depth (.sequence (first :: rest)) ++ more)
        = list (value inner) (style.gap (depth + 1) ++ text) := by
          simp [Style.write, value, text, behind]
      _ = itemsAfter (value inner) [first] (text.length + 1) behind :=
          list_item (hstyle.gap (depth + 1)) (starts_write hfirst.whole behind) hread
      _ = .ok (.sequence (first :: rest), more) :=
          itemsAfter_writeItems hstyle rest (depth + 1) inner [first] (hstyle.gap depth) hrest hsteps
  | .mapping [], depth, room, more, h, _ => by
    obtain ⟨inner, rfl, -⟩ := h.of_mapping
    rfl
  | .mapping ((key, first) :: rest), depth, room, more, h, hmore => by
    obtain ⟨inner, rfl, hascending, hentries⟩ := h.of_mapping
    have hfirst := hentries (key, first) List.mem_cons_self
    have hrest : ∀ entry ∈ rest, Readable inner entry.2 :=
      fun entry member => hentries entry (List.mem_cons_of_mem _ member)
    let behind := style.writeEntries (depth + 1) rest ++ (style.gap depth ++ '}' :: more)
    have hbehind : Breaks behind :=
      breaks_writeEntries (breaks_append (hstyle.gap depth) (breaks_cons (by decide)))
    let text := ':' :: (style.afterColon ++ (style.write (depth + 1) first ++ behind))
    have hentry : entry (value inner) (style.string key ++ text) = .ok ((key, first), behind) :=
      entry_string hstyle.afterColon (starts_write hfirst.whole behind)
        (value_write hstyle first (depth + 1) inner hfirst hbehind) key
    have hsteps : rest.length < (style.string key ++ text).length + 1 := by
      have hlength := length_le_writeEntries style (depth + 1) rest
      simp only [text, behind, List.length_cons, List.length_append]
      omega
    calc value (inner + 1) (style.write depth (.mapping ((key, first) :: rest)) ++ more)
        = object (value inner) (style.gap (depth + 1) ++ (style.string key ++ text)) := by
          simp [Style.write, value, text, behind]
      _ = entriesAfter (value inner) [(key, first)] ((style.string key ++ text).length + 1)
            behind := object_entry (hstyle.gap (depth + 1)) hentry
      _ = .ok (.mapping ((key, first) :: rest), more) :=
          entriesAfter_writeEntries hstyle rest (depth + 1) inner [(key, first)] (hstyle.gap depth)
            hascending hrest hsteps

/-- Behind the items that have been seen the others are read, up to the bracket. -/
theorem itemsAfter_writeItems {style : Style} (hstyle : style.Loose) :
    ∀ (items : List Document) (depth room : Nat) (seen : List Document) {steps : Nat}
      {gap more : List Char}, Blank gap → (∀ item ∈ items, Readable room item) →
        items.length < steps →
          itemsAfter (value room) seen steps (style.writeItems depth items ++ (gap ++ ']' :: more))
            = .ok (.sequence (seen.reverse ++ items), more)
  | [], depth, room, seen, steps + 1, gap, more, hgap, _, _ => by
    rw [Style.writeItems, List.nil_append, List.append_nil]
    exact itemsAfter_close hgap seen steps
  | item :: rest, depth, room, seen, steps + 1, gap, more, hgap, h, hsteps => by
    have hitem := h item List.mem_cons_self
    have hrest : ∀ item ∈ rest, Readable room item :=
      fun item member => h item (List.mem_cons_of_mem _ member)
    let behind := style.writeItems depth rest ++ (gap ++ ']' :: more)
    have hbehind : Breaks behind :=
      breaks_writeItems (breaks_append hgap (breaks_cons (by decide)))
    have hread := value_write hstyle item depth room hitem hbehind
    calc itemsAfter (value room) seen (steps + 1)
          (style.writeItems depth (item :: rest) ++ (gap ++ ']' :: more))
        = itemsAfter (value room) seen (steps + 1)
            (',' :: (style.gap depth ++ (style.write depth item ++ behind))) := by
          simp [Style.writeItems, behind]
      _ = itemsAfter (value room) (item :: seen) steps behind :=
          itemsAfter_comma (hstyle.gap depth) (starts_write hitem.whole behind) hread seen steps
      _ = .ok (.sequence ((item :: seen).reverse ++ rest), more) :=
          itemsAfter_writeItems hstyle rest depth room (item :: seen) hgap hrest
            (Nat.lt_of_succ_lt_succ hsteps)
      _ = .ok (.sequence (seen.reverse ++ item :: rest), more) := by
          rw [List.reverse_cons, List.append_assoc, List.singleton_append]

/-- Behind the entries that have been seen the others are read, up to the bracket. -/
theorem entriesAfter_writeEntries {style : Style} (hstyle : style.Loose) :
    ∀ (entries : Entries Document) (depth room : Nat) (seen : Entries Document) {steps : Nat}
      {gap more : List Char}, Blank gap → Entries.Ascending (seen ++ entries) →
        (∀ entry ∈ entries, Readable room entry.2) → entries.length < steps →
          entriesAfter (value room) seen steps
              (style.writeEntries depth entries ++ (gap ++ '}' :: more))
            = .ok (.mapping (seen ++ entries), more)
  | [], depth, room, seen, steps + 1, gap, more, hgap, _, _, _ => by
    rw [Style.writeEntries, List.nil_append, List.append_nil]
    exact entriesAfter_close hgap seen steps
  | (key, first) :: rest, depth, room, seen, steps + 1, gap, more, hgap, hascending, h, hsteps => by
    have hfirst := h (key, first) List.mem_cons_self
    have hrest : ∀ entry ∈ rest, Readable room entry.2 :=
      fun entry member => h entry (List.mem_cons_of_mem _ member)
    let behind := style.writeEntries depth rest ++ (gap ++ '}' :: more)
    have hbehind : Breaks behind :=
      breaks_writeEntries (breaks_append hgap (breaks_cons (by decide)))
    let text := ':' :: (style.afterColon ++ (style.write depth first ++ behind))
    have hentry : entry (value room) (style.string key ++ text) = .ok ((key, first), behind) :=
      entry_string hstyle.afterColon (starts_write hfirst.whole behind)
        (value_write hstyle first depth room hfirst hbehind) key
    -- The key is greater than all before it, so the entry is stored at the end.
    have hseen : seen.insert key first = seen ++ [(key, first)] :=
      Entries.insert_of_ascending hascending
    calc entriesAfter (value room) seen (steps + 1)
          (style.writeEntries depth ((key, first) :: rest) ++ (gap ++ '}' :: more))
        = entriesAfter (value room) seen (steps + 1)
            (',' :: (style.gap depth ++ (style.string key ++ text))) := by
          simp [Style.writeEntries, text, behind]
      _ = entriesAfter (value room) (seen ++ [(key, first)]) steps behind := by
          rw [entriesAfter_comma (hstyle.gap depth) hentry seen steps, hseen]
      _ = .ok (.mapping (seen ++ [(key, first)] ++ rest), more) := by
          refine entriesAfter_writeEntries hstyle rest depth room _ hgap ?_ hrest
            (Nat.lt_of_succ_lt_succ hsteps)
          rw [List.append_assoc]
          exact hascending
      _ = .ok (.mapping (seen ++ (key, first) :: rest), more) := by
          rw [List.append_assoc, List.singleton_append]
end

/-- A text is read as the document that it was written from, with blanks behind it or without. -/
theorem parseWithin_write {style : Style} (hstyle : style.Loose) {document : Document} {room : Nat}
    (h : Readable room document) {gap : List Char} (hgap : Blank gap) :
    parseWithin room (String.ofList (style.write 0 document ++ gap)) = .ok document := by
  have hread := value_write hstyle document 0 room h (breaks_of_blank hgap)
  rw [parseWithin, String.toList_ofList]
  simp only [(starts_write h.whole gap).skipSpace_eq, hread, skipSpace_of_blank hgap]

end Variation.Json
