import Variation.Codec.Basic

/-!
# Records as mappings

A record is read from a mapping of its fields, or from a sequence of their values in the order of
the declaration. Reading starts from a blank record and stores field after field, a mapping in the
order of its keys. A field that may be left out keeps its blank value; whether every other field was
given is checked at the end of a mapping, and at the first one missing in a sequence.
-/

namespace Variation.Codec

/-- One field of a record. -/
structure Field (α : Type) where
  name : String
  /-- Whether the field has to be given. -/
  required : Bool
  /-- Stores the value that a document stands for. -/
  store : Document → α → Except Mismatch α

/-- The field that stores what a decoder reads. -/
def Field.of {α β : Type} (name : String) (required : Bool)
    (decode : Document → Except Mismatch β) (set : β → α → α) : Field α :=
  ⟨name, required, fun document record => (decode document).map (set · record)⟩

/-- The form of a record. -/
structure RecordForm (α : Type) where
  name : String
  /-- Whether a key that is no field is an error; otherwise it is passed over. -/
  strict : Bool
  /-- The record before any field is stored. -/
  blank : α
  fields : List (Field α)

namespace RecordForm

variable {α : Type}

/-- The form as a message names it. -/
def title (form : RecordForm α) : String :=
  "struct " ++ form.name

/-- The form as a message names it where a sequence is too short. -/
def sizedTitle (form : RecordForm α) : String :=
  form.title ++ " with " ++ toString form.fields.length
    ++ (if form.fields.length = 1 then " element" else " elements")

/-- Stores the entries of a mapping. -/
def storeEntries (form : RecordForm α) : List (String × Document) → α → Except Mismatch α
  | [], record => .ok record
  | (key, value) :: rest, record =>
    match form.fields.find? (·.name == key) with
    | some field =>
      match field.store value record with
      | .error reason => .error reason
      | .ok record => form.storeEntries rest record
    | none =>
      if form.strict then .error (.unknownField key (form.fields.map (·.name)))
      else form.storeEntries rest record

/-- Stores the items of a sequence in the given fields, `position` fields having been stored
before. -/
def storeItems (form : RecordForm α) (position : Nat) :
    List (Field α) → List Document → α → Except Mismatch α
  | [], [], record => .ok record
  | [], rest, _ => .error (.wrongLength (position + rest.length) "fewer elements in array")
  | field :: fields, [], record =>
    if field.required then .error (.wrongLength position form.sizedTitle)
    else form.storeItems (position + 1) fields [] record
  | field :: fields, item :: rest, record =>
    match field.store item record with
    | .error reason => .error reason
    | .ok record => form.storeItems (position + 1) fields rest record

/-- The first field that a mapping has to give and does not. -/
def missing? (form : RecordForm α) (entries : List (String × Document)) : Option (Field α) :=
  form.fields.find? fun field => field.required && (Entries.lookup? field.name entries).isNone

/-- Reads a record. -/
def decode (form : RecordForm α) : Document → Except Mismatch α
  | .mapping entries =>
    match form.storeEntries entries form.blank with
    | .error reason => .error reason
    | .ok record =>
      match form.missing? entries with
      | some field => .error (.missingField field.name)
      | none => .ok record
  | .sequence items => form.storeItems 0 form.fields items form.blank
  | other => .error (.wrongType other form.title)

end RecordForm

end Variation.Codec
