import Variation.Yaml.Character

/-!
# A place in a text

A `Cursor` is the text that is left with its place: the line and column, on which indentation
depends, and the number of characters before it, which limits the length of a key.
-/

namespace Variation.Yaml

/-- A text from a place on. -/
structure Cursor where
  rest : List Char
  line : Nat
  column : Nat
  /-- How many characters stand before the place. -/
  index : Nat

namespace Cursor

/-- The first place of a text. -/
def start (text : List Char) : Cursor := ⟨text, 0, 0, 0⟩

/-- The character at a distance. -/
def at? (c : Cursor) (distance : Nat) : Option Char :=
  c.rest[distance]?

/-- Whether the next character is the given one. -/
def sees (c : Cursor) (mark : Char) : Bool :=
  c.rest.head? == some mark

/-- Whether a blank, a break or the end of the text stands at a distance. -/
def endsAt (c : Cursor) (distance : Nat) : Bool :=
  (c.at? distance).elim true isSeparator

/-- Whether the next character is a break. -/
def atBreak (c : Cursor) : Bool :=
  c.rest.head?.elim false isBreak

/-- Whether the next character is a blank. -/
def atBlank (c : Cursor) : Bool :=
  c.rest.head?.elim false isBlank

/-- The place so many characters further on, none of which is a break. -/
def skip (c : Cursor) (count : Nat) : Cursor :=
  ⟨c.rest.drop count, c.line, c.column + count, c.index + count⟩

/-- The next characters of a class that holds no breaks, and the place behind them. -/
def span (c : Cursor) (p : Char → Bool) : List Char × Cursor :=
  let word := c.rest.takeWhile p
  (word, c.skip word.length)

/-- The place behind the next characters of a class that holds no breaks. -/
def skipWhile (c : Cursor) (p : Char → Bool) : Cursor :=
  (c.span p).2

/-- The place at the start of the next line, so many characters further on. -/
def nextLine (c : Cursor) (count : Nat) : Cursor :=
  ⟨c.rest.drop count, c.line + 1, 0, c.index + count⟩

/-- The break at a place, as a text holds it: the two breaks of Unicode as they are and all others
as a line feed, a carriage return joined to the line feed behind it. -/
def readBreak (c : Cursor) : Char × Cursor :=
  match c.rest with
  | '\r' :: '\n' :: _ => ('\n', c.nextLine 2)
  | b :: _ => (if b = '\u2028' || b = '\u2029' then b else '\n', c.nextLine 1)
  | [] => ('\n', c)

/-- The place behind a break, if one is next. -/
def skipBreak (c : Cursor) : Cursor :=
  if c.atBreak then c.readBreak.2 else c

/-- The place behind a comment, if one is next: the end of the line. -/
def skipComment (c : Cursor) : Cursor :=
  if c.sees '#' then c.skipWhile (fun x => !isBreak x) else c

/-- Whether three marks that start or end a document stand at the start of a line. -/
def atDocumentMark (c : Cursor) (mark : Char) : Bool :=
  c.column == 0 && c.rest.take 3 == [mark, mark, mark] && c.endsAt 3

/-- Whether a mark of either kind stands at the start of a line. -/
def atAnyDocumentMark (c : Cursor) : Bool :=
  c.atDocumentMark '-' || c.atDocumentMark '.'

end Cursor

end Variation.Yaml
