import Variation.Codec.Basic
import Variation.Json.Number

/-!
# Maps as mappings

A mapping has texts for keys, so a map with keys of another type needs a text for each of them. A
whole number has its digits, a truth value its name; a list or an optional text has none, and a map
with such keys has no document.

The entries of a map ascend by their keys. The order of keys as numbers is not their order as
texts, so the entries of a mapping are sorted again when it is read.
-/

namespace Variation.Codec

/-- How the keys of a map are written as texts, read from them, and ordered. -/
structure KeyForm (κ : Type) where
  write : κ → Except Unfit String
  read : String → Except Mismatch κ
  /-- Whether the first key does not come after the second. -/
  ordered : κ → κ → Bool

namespace KeyForm

/-- Texts stand for themselves. -/
def text : KeyForm String :=
  ⟨.ok, .ok, fun a b => decide (a ≤ b)⟩

/-- The number that a text holds, if it holds nothing else. -/
def readInteger (number : Codec Int) (key : String) : Except Mismatch Int :=
  let characters := key.toList
  if characters.head?.elim false (fun c => c = '-' || Json.isDigit c) then
    match Json.number characters with
    | .error stop => .error (.keyMalformed (stop.located characters))
    | .ok (document, rest) =>
      match number.decode document with
      | .error reason => .error (.keyUnfit (.leaving (Json.byteCount rest) characters) reason)
      | .ok n => if rest.isEmpty then .ok n else .error .keyNotNumber
  else .error .keyNotNumber

/-- Whole numbers have their digits. -/
def integer (number : Codec Int) : KeyForm Int :=
  ⟨fun n => .ok (String.ofList (Text.Numeral.decimal n)), readInteger number,
    fun a b => decide (a ≤ b)⟩

/-- Truth values have their names. -/
def boolean : KeyForm Bool where
  write b := .ok (if b then "true" else "false")
  read
    | "true" => .ok true
    | "false" => .ok false
    | other => .error (.wrongType (.text other) "a boolean")
  ordered a b := !a || b

/-- Lists have no text. -/
def list (κ : Type) : KeyForm (List κ) where
  write _ := .error .keyNotText
  read key := .error (.wrongType (.text key) "a sequence")
  ordered _ _ := true

/-- Optional texts have no text, present or not. -/
def optional : KeyForm (Option String) where
  write _ := .error .keyNotText
  read key := .ok (some key)
  ordered _ _ := true

end KeyForm

/-- Maps, as mappings. The value of a map is the list of its entries in the order of their keys. -/
def map {κ α : Type} (key : KeyForm κ) (value : Codec α) : Codec (List (κ × α)) where
  encode pairs :=
    (each (fun (k, a) => do
      let name ← key.write k
      let document ← value.encode a
      .ok (name, document)) pairs).map Document.ofPairs
  decode
    | .mapping entries =>
      (each (fun (name, document) => do
        let k ← key.read name
        let a ← value.decode document
        .ok (k, a)) entries).map fun pairs => pairs.mergeSort fun p q => key.ordered p.1 q.1
    | other => .error (.wrongType other "a map")

end Variation.Codec
