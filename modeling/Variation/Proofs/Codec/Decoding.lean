import Variation.Codec.Path
import Variation.Codec.Record
import Variation.Proofs.Document.Position

/-!
# Reading lists, paths and records

What reading does with the parts of a document. A list is read item by item and a record entry by
entry, up to the first that is refused. So where all of a list or of a mapping is read, one part that
is put in and refused is what the whole is refused for (`each_set_refused`, `decode_insert_refused`),
wherever it stands.
-/

namespace Variation

/-- The list form of a segment. -/
def Segment.document : Segment → Document
  | .key name => .text name
  | .index position => .whole (.ofWord position)

/-- The list form of a path. -/
def KeyPath.document (path : KeyPath) : Document :=
  .sequence (path.segments.map Segment.document)

namespace Codec

/-! ## Lists -/

section Each

variable {α β ε : Type} {f : α → Except ε β}

/-- A list is read if its first item and the others are. -/
theorem each_cons_eq_ok {item : α} {rest : List α} {values : List β} :
    each f (item :: rest) = .ok values ↔
      ∃ value behind, f item = .ok value ∧ each f rest = .ok behind ∧ values = value :: behind := by
  rw [each]
  cases f item with
  | error reason => simp
  | ok value => cases each f rest <;> simp [eq_comm]

theorem each_cons_ok {item : α} {rest : List α} {value : β} {values : List β}
    (hitem : f item = .ok value) (hrest : each f rest = .ok values) :
    each f (item :: rest) = .ok (value :: values) :=
  each_cons_eq_ok.mpr ⟨value, values, hitem, hrest, rfl⟩

/-- A list whose items are read back is read back. -/
theorem each_map {γ : Type} {g : γ → α} {h : γ → β} {items : List γ}
    (hitems : ∀ item ∈ items, f (g item) = .ok (h item)) :
    each f (items.map g) = .ok (items.map h) := by
  induction items with
  | nil => rfl
  | cons item rest ih =>
    exact each_cons_ok (hitems item List.mem_cons_self)
      (ih fun other member => hitems other (List.mem_cons_of_mem _ member))

/-- In a list that is read, one item that is refused is what the list is refused for. -/
theorem each_set_refused {items : List α} {values : List β} {item : α} {i : Nat} {reason : ε}
    (hitems : each f items = .ok values) (bound : i < items.length)
    (hitem : f item = .error reason) : each f (items.set i item) = .error reason := by
  induction items generalizing values i with
  | nil => cases bound
  | cons first rest ih =>
    cases i with
    | zero => rw [List.set_cons_zero, each, hitem]
    | succ i =>
      obtain ⟨value, behind, hfirst, hrest, -⟩ := each_cons_eq_ok.mp hitems
      rw [List.set_cons_succ, each, hfirst, ih hrest (Nat.lt_of_succ_lt_succ bound)]

end Each

/-- Only `null` stands for no value. -/
theorem decodeOptional_of_ne_null {α : Type} {inner : Document → Except Mismatch α}
    {document : Document} (h : document ≠ .null) :
    decodeOptional inner document = (inner document).map some := by
  cases document <;> first | rfl | exact absurd rfl h

/-! ## Paths -/

theorem segment_decode (s : Segment) : segment.decode s.document = .ok s := by
  cases s with
  | key name => rfl
  | index position =>
    have hnonneg : 0 ≤ (Whole.ofWord position).value := Int.natCast_nonneg _
    have hvalue : (Whole.ofWord position).value.toNat = position.toNat := Int.toNat_natCast _
    simp only [Segment.document, segment, if_pos hnonneg, hvalue, UInt64.ofNat_toNat]

/-- A path is read from its list form. -/
theorem keyPath_decode (path : KeyPath) : keyPath.decode path.document = .ok path := by
  have hlist : (list segment).decode path.document = .ok path.segments := by
    have heach : each segment.decode (path.segments.map Segment.document)
        = .ok (path.segments.map id) := each_map fun s _ => segment_decode s
    rw [List.map_id] at heach
    exact heach
  simp only [keyPath, hlist]
  rfl

/-! ## Records -/

section Records

variable {α β : Type} {form : RecordForm α} {name key : String} {required : Bool}
  {value : Document} {entries rest : List (String × Document)} {record : α}

theorem storeEntries_field {decode : Document → Except Mismatch β} {set : β → α → α} {b : β}
    (hfield : form.fields.find? (·.name == name) = some (.of name required decode set))
    (hvalue : decode value = .ok b) :
    form.storeEntries ((name, value) :: rest) record = form.storeEntries rest (set b record) := by
  simp only [RecordForm.storeEntries, hfield, Field.of, hvalue]
  rfl

/-- Whether a field takes a value does not depend on the record that it is stored in. -/
def Field.Uniform (field : Field α) : Prop :=
  ∀ value record record' stored, field.store value record = .ok stored →
    ∃ stored', field.store value record' = .ok stored'

@[simp] theorem uniform_of {decode : Document → Except Mismatch β} {set : β → α → α} :
    (Field.of name required decode set).Uniform := by
  intro value record record' stored h
  simp only [Field.of] at h ⊢
  cases hvalue : decode value with
  | error reason =>
    rw [hvalue] at h
    cases h
  | ok b => exact ⟨_, rfl⟩

/-- A form that takes no other fields than its own, and those whatever was stored before. -/
structure Strict (form : RecordForm α) : Prop where
  strict : form.strict = true
  uniform : ∀ field ∈ form.fields, field.Uniform

/-- A form takes no entry of this name, or the field refuses the value. -/
def Refuses (form : RecordForm α) (key : String) (value : Document) (reason : Mismatch) : Prop :=
  match form.fields.find? (·.name == key) with
  | some field => ∀ record, field.store value record = .error reason
  | none => form.strict = true ∧ reason = .unknownField key (form.fields.map (·.name))

/-- A strict form takes no entry of a name that none of its fields has. -/
theorem refuses_of_not_mem (hform : Strict form)
    (hkey : key ∉ form.fields.map (·.name)) :
    Refuses form key value (.unknownField key (form.fields.map (·.name))) := by
  have hnone : form.fields.find? (·.name == key) = none := by
    rw [List.find?_eq_none]
    intro field member heq
    exact hkey (List.mem_map.mpr ⟨field, member, by simpa using heq⟩)
  simp [Refuses, hnone, hform.strict]

theorem refuses_of_field {decode : Document → Except Mismatch β} {set : β → α → α}
    {reason : Mismatch}
    (hfield : form.fields.find? (·.name == name) = some (.of name required decode set))
    (hvalue : decode value = .error reason) : Refuses form name value reason := by
  simp only [Refuses, hfield, Field.of, hvalue]
  exact fun record => rfl

theorem storeEntries_of_refuses {reason : Mismatch} (h : Refuses form key value reason) :
    form.storeEntries ((key, value) :: rest) record = .error reason := by
  simp only [RecordForm.storeEntries]
  cases hfind : form.fields.find? (·.name == key) with
  | none =>
    simp only [Refuses, hfind] at h
    simp [h]
  | some field =>
    simp only [Refuses, hfind] at h
    simp [h record]

/-- An entry that is refused is refused among others, whatever these have made of the record. -/
theorem storeEntries_insert_refused {stored : α} {reason : Mismatch} (hform : Strict form)
    (hstored : form.storeEntries entries record = .ok stored)
    (h : Refuses form key value reason) (after : α) :
    form.storeEntries (Entries.insert key value entries) after = .error reason := by
  induction entries generalizing record after with
  | nil => exact storeEntries_of_refuses h
  | cons entry rest ih =>
    obtain ⟨k, v⟩ := entry
    rw [Entries.insert]
    split
    · exact storeEntries_of_refuses h
    · split
      · exact storeEntries_of_refuses h
      · -- The entries in front are stored in another record than before, which their fields do not mind.
        simp only [RecordForm.storeEntries] at hstored ⊢
        cases hfind : form.fields.find? (·.name == k) with
        | none => simp [hfind, hform.strict] at hstored
        | some field =>
          simp only [hfind] at hstored
          cases hstore : field.store v record with
          | error reason => simp [hstore] at hstored
          | ok next =>
            have hfield := List.mem_of_find?_eq_some hfind
            obtain ⟨next', hnext'⟩ := hform.uniform field hfield v record after next hstore
            simp only [hstore] at hstored
            simp only [hnext']
            exact ih hstored next'

/-- A mapping that is read is refused once an entry is put in that is refused. -/
theorem decode_insert_refused {reason : Mismatch} (hform : Strict form)
    (hread : form.decode (.mapping entries) = .ok record)
    (h : Refuses form key value reason) :
    form.decode (.mapping (Entries.insert key value entries)) = .error reason := by
  rw [RecordForm.decode] at hread
  cases hstored : form.storeEntries entries form.blank with
  | error reason => simp [hstored] at hread
  | ok stored => rw [RecordForm.decode, storeEntries_insert_refused hform hstored h]

theorem decode_setAt_unknown (hform : Strict form)
    (hread : form.decode (.mapping entries) = .ok record)
    (hkey : key ∉ form.fields.map (·.name)) :
    form.decode ((Document.mapping entries).setAt [.entry key] value)
      = .error (.unknownField key (form.fields.map (·.name))) := by
  rw [Document.setAt_insert]
  exact decode_insert_refused hform hread (refuses_of_not_mem hform hkey)

theorem decode_setAt_optional_refused {inner : Document → Except Mismatch β}
    {set : Option β → α → α} {child : Document} {below : List Step} {reason : Mismatch}
    (hform : Strict form) (hread : form.decode (.mapping entries) = .ok record)
    (hfield : form.fields.find? (·.name == name)
      = some (.of name required (decodeOptional inner) set))
    (hentry : Entries.lookup? name entries = some child)
    (hnull : child.setAt below value ≠ .null) (h : inner (child.setAt below value) = .error reason) :
    form.decode ((Document.mapping entries).setAt (.entry name :: below) value)
      = .error reason := by
  rw [Document.setAt_entry hentry]
  refine decode_insert_refused hform hread (refuses_of_field hfield ?_)
  rw [decodeOptional_of_ne_null hnull, h]
  rfl

/-- What an item of a list is refused for, the record with the list is refused for. -/
theorem decode_setAt_list_refused {inner : Document → Except Mismatch β} {set : List β → α → α}
    {items : List Document} {values : List β} {child : Document} {i : Nat} {below : List Step}
    {reason : Mismatch} (hform : Strict form)
    (hread : form.decode (.mapping entries) = .ok record)
    (hfield : form.fields.find? (·.name == name)
      = some (.of name required (decodeList inner) set))
    (hentry : Entries.lookup? name entries = some (.sequence items))
    (hitems : each inner items = .ok values)
    (hchild : items[i]? = some child) (h : inner (child.setAt below value) = .error reason) :
    form.decode ((Document.mapping entries).setAt (.entry name :: .element i :: below) value)
      = .error reason := by
  have bound : i < items.length := (List.getElem?_eq_some_iff.mp hchild).1
  rw [Document.setAt_entry hentry, Document.setAt_element hchild]
  refine decode_insert_refused hform hread (refuses_of_field hfield ?_)
  exact each_set_refused hitems bound h

end Records

end Codec

end Variation
