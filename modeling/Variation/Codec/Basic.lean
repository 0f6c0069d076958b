import Variation.Codec.Mismatch

/-!
# Values as documents

A `Codec` of a type says how its values are written as documents and how documents are read as its
values. Reading is strict: a number is never read as a text, nor a floating point number as a whole
one, and what does not fit is an error that names what was expected.

`Codec.copy` writes a value and reads the document back. What is written and read back is the same
value for most codecs, but not for all: a floating point value that is not finite is written as
`null`, which an optional number reads as an absent one.
-/

namespace Variation

open Decimal (Binary64)

/-- How the values of a type are written as documents and read from them. -/
structure Codec (α : Type) where
  encode : α → Except Codec.Unfit Document
  decode : Document → Except Codec.Mismatch α

namespace Codec

/-- Documents themselves. -/
def document : Codec Document := ⟨.ok, .ok⟩

/-- The values of `items` in turn, up to the first that fails. -/
def each {α β ε : Type} (f : α → Except ε β) : List α → Except ε (List β)
  | [] => .ok []
  | item :: rest =>
    match f item with
    | .error e => .error e
    | .ok value =>
      match each f rest with
      | .error e => .error e
      | .ok values => .ok (value :: values)

/-- Whole numbers from `low` up to `high`, without `high` itself. -/
def integer (name : String) (low high : Int) : Codec Int where
  encode n := (Document.ofInt? n).elim (.error .outOfRange) .ok
  decode
    | .whole n =>
      if low ≤ n.value ∧ n.value < high then .ok n.value else .error (.wrongValue (.whole n) name)
    | other => .error (.wrongType other name)

/-- Whole numbers of so many bits without a sign. -/
def unsigned (bits : Nat) : Codec Int :=
  integer ("u" ++ toString bits) 0 (2 ^ bits)

/-- Whole numbers of so many bits with a sign. -/
def signed (bits : Nat) : Codec Int :=
  integer ("i" ++ toString bits) (-2 ^ (bits - 1)) (2 ^ (bits - 1))

/-- A 64-bit floating point value, finite or not. -/
inductive Float64 where
  | finite (x : Binary64)
  | infinite (negative : Bool)
  | notANumber
deriving DecidableEq

/-- Floating point values. A whole number is read as the value nearest to it. -/
def float : Codec Float64 where
  encode
    | .finite x => .ok (.real x)
    | _ => .ok .null
  decode
    | .real x => .ok (.finite x)
    | .whole n =>
      let negative := decide (n.value < 0)
      .ok (((Binary64.ofNat? negative n.value.natAbs).map .finite).getD (.infinite negative))
    | other => .error (.wrongType other "f64")

/-- Truth values. -/
def boolean : Codec Bool where
  encode b := .ok (.boolean b)
  decode
    | .boolean b => .ok b
    | other => .error (.wrongType other "a boolean")

/-- Texts. -/
def text : Codec String where
  encode s := .ok (.text s)
  decode
    | .text s => .ok s
    | other => .error (.wrongType other "a string")

/-- Single characters, as texts of length one. -/
def character : Codec Char where
  encode c := .ok (.text (String.singleton c))
  decode
    | .text s =>
      match s.toList with
      | [c] => .ok c
      | _ => .error (.wrongValue (.text s) "a character")
    | other => .error (.wrongType other "a character")

/-- The one value of the unit type, as `null`. -/
def unit : Codec Unit where
  encode _ := .ok .null
  decode
    | .null => .ok ()
    | other => .error (.wrongType other "unit")

/-- Reads a value that may be absent; `null` stands for an absent one. -/
def decodeOptional {α : Type} (inner : Document → Except Mismatch α) :
    Document → Except Mismatch (Option α)
  | .null => .ok none
  | other => (inner other).map some

/-- Values that may be absent. -/
def optional {α : Type} (inner : Codec α) : Codec (Option α) where
  encode
    | none => .ok .null
    | some a => inner.encode a
  decode := decodeOptional inner.decode

/-- Reads the items of a sequence. -/
def decodeList {α : Type} (inner : Document → Except Mismatch α) :
    Document → Except Mismatch (List α)
  | .sequence items => each inner items
  | other => .error (.wrongType other "a sequence")

/-- Lists, as sequences. -/
def list {α : Type} (inner : Codec α) : Codec (List α) where
  encode items := (each inner.encode items).map .sequence
  decode := decodeList inner.decode

/-- Pairs, as sequences of two items. -/
def pair {α β : Type} (left : Codec α) (right : Codec β) : Codec (α × β) where
  encode p := do
    let a ← left.encode p.1
    let b ← right.encode p.2
    .ok (.sequence [a, b])
  decode
    | .sequence [] => .error (.wrongLength 0 "a tuple of size 2")
    | .sequence [a] => do
      let _ ← left.decode a
      .error (.wrongLength 1 "a tuple of size 2")
    | .sequence (a :: b :: rest) => do
      let x ← left.decode a
      let y ← right.decode b
      if rest.isEmpty then .ok (x, y)
      else .error (.wrongLength (rest.length + 2) "fewer elements in array")
    | other => .error (.wrongType other "a tuple of size 2")

/-- Why a value cannot be copied. -/
inductive CopyError where
  | unfit (reason : Unfit)
  | mismatch (reason : Mismatch)

/-- Why a value cannot be copied, in words. -/
def CopyError.message : CopyError → String
  | .unfit reason => "serialization failed: " ++ reason.message
  | .mismatch reason => "serialization failed: " ++ reason.message

/-- An independent copy of a value: the value is written as a document, which is read back. -/
def copy {α : Type} (codec : Codec α) (a : α) : Except CopyError α :=
  match codec.encode a with
  | .error reason => .error (.unfit reason)
  | .ok document =>
    match codec.decode document with
    | .error reason => .error (.mismatch reason)
    | .ok b => .ok b

end Codec

end Variation
