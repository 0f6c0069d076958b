import Variation.Document.Access

/-!
# Overwriting at a path

Writing follows a path as reading does, with three differences: the last key of a mapping need not
exist, a key that meets a sequence writes into every element, and a sequence without elements has
nothing to write into and is left alone.

A write that fails half way through a sequence has already changed the elements before the one that
failed. That state is part of the answer: `Written` holds the document afterwards beside the fault.
-/

namespace Variation.Document

/-- What a write leaves: the document afterwards and what stopped it, if anything did. -/
structure Written where
  document : Document
  fault? : Option AccessError

mutual
/-- Writes into every node under nested sequences, in order, up to the first that fails. -/
def writeEach (write : Document → Written) : Document → Written
  | .sequence items =>
    let (after, fault?) := writeItems write items
    ⟨.sequence after, fault?⟩
  | node => write node

/-- Writes into the elements of a sequence, in order, up to the first that fails; the elements after
it stay as they were. -/
def writeItems (write : Document → Written) : List Document → List Document × Option AccessError
  | [] => ([], none)
  | item :: rest =>
    match writeEach write item with
    | ⟨after, some fault⟩ => (after :: rest, some fault)
    | ⟨after, none⟩ =>
      let (more, fault?) := writeItems write rest
      (after :: more, fault?)
end

/-- Writes a value at the end of `segments`, `place` being the segments followed before. -/
def writeFrom (value : Document) (place : List Segment) : List Segment → Document → Written
  | [], _ => ⟨value, none⟩
  | .key name :: rest, node =>
    let next := place ++ [.key name]
    node.writeEach fun
      | .mapping entries =>
        if rest.isEmpty then ⟨.mapping (Entries.insert name value entries), none⟩
        else match Entries.lookup? name entries with
          | none => ⟨.mapping entries, some (.missingKey next)⟩
          | some child =>
            let inner := writeFrom value next rest child
            ⟨.mapping (Entries.insert name inner.document entries), inner.fault?⟩
      | other => ⟨other, some (.typeMismatch next .mapping other.shape)⟩
  | .index position :: rest, node =>
    let next := place ++ [.index position]
    match node with
    | .sequence items =>
      match items[position.toNat]? with
      | none => ⟨node, some (.indexOutOfRange next position items.length)⟩
      | some child =>
        let inner := writeFrom value next rest child
        ⟨.sequence (items.set position.toNat inner.document), inner.fault?⟩
    | other => ⟨other, some (.typeMismatch next .sequence other.shape)⟩

/-- Writes a value at a path. -/
def replace (document : Document) (path : KeyPath) (value : Document) : Written :=
  writeFrom value [] path.segments document

/-- The document after a write that succeeds. -/
def Written.done (w : Written) : Except AccessError Document :=
  w.fault?.elim (.ok w.document) .error

end Variation.Document
