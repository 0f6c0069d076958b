import Variation.Text.Numeral
import Variation.Yaml.Cursor
import Variation.Yaml.Error

/-!
# Names in YAML

Anchors, tags and directives. A tag is a *handle* and a *suffix*; a directive of the document says
what a handle stands for. A tag in angle brackets has no handle, and a lone exclamation mark is a tag
of its own.
-/

namespace Variation.Yaml

/-- A tag as it is written. -/
structure Tag where
  handle : String
  suffix : String
deriving DecidableEq

/-- What a line that starts with a percent sign says. -/
inductive Directive where
  | version (major minor : Nat)
  | handle (handle expansion : String)

/-- Reads the name behind the mark of an anchor or of an alias. -/
def readName (c : Cursor) : Except Fault (String × Cursor) :=
  let (name, next) := (c.skip 1).span isWord
  let ends := next.endsAt 0
    || next.rest.head?.elim false (fun x => ['?', ':', ',', ']', '}', '%', '@', '`'].contains x)
  if name.isEmpty || !ends then .error .badAnchor else .ok (String.ofList name, next)

/-! ## Tags -/

/-- Whether a character may stand in a tag; brackets and commas only inside angle brackets. -/
def isTagCharacter (bracketed : Bool) (c : Char) : Bool :=
  isWord c || [';', '/', '?', ':', '@', '&', '=', '+', '$', '.', '!', '~', '*', '\'', '(', ')'].contains c
    || (bracketed && [',', '[', ']'].contains c)

/-- The byte that a percent sign and two hexadecimal digits stand for. -/
def escapedByte? (text : List Char) : Option Nat :=
  match text with
  | '%' :: a :: b :: _ => Text.Numeral.value? 16 [a, b]
  | _ => none

/-- How many bytes a character takes that starts with a byte, and what that byte adds to it. -/
def leadingByte? (byte : Nat) : Option (Nat × Nat) :=
  if byte < 0x80 then some (1, byte)
  else if 0xC0 ≤ byte ∧ byte < 0xE0 then some (2, byte % 0x20)
  else if 0xE0 ≤ byte ∧ byte < 0xF0 then some (3, byte % 0x10)
  else if 0xF0 ≤ byte ∧ byte < 0xF8 then some (4, byte % 0x08)
  else none

/-- The code point of a leading value and `count` further escaped bytes. -/
def furtherBytes? (value : Nat) : Nat → List Char → Option Nat
  | 0, _ => some value
  | count + 1, text =>
    match escapedByte? text with
    | none => none
    | some byte =>
      if 0x80 ≤ byte ∧ byte < 0xC0 then
        furtherBytes? (value * 0x40 + byte % 0x40) count (text.drop 3)
      else none

/-- Reads the escapes of one character. -/
def readTagEscape (c : Cursor) : Except Fault (Char × Cursor) :=
  match escapedByte? c.rest with
  | none => .error .badTag
  | some byte =>
    match leadingByte? byte with
    | none => .error .badTag
    | some (width, value) =>
      match furtherBytes? value (width - 1) (c.rest.drop 3) with
      | none => .error .badTag
      | some code =>
        if code.isValidChar then .ok (Char.ofNat code, c.skip (3 * width)) else .error .badTag

/-- Reads the characters of a tag; `seen` holds those read so far, last first. -/
def tagCharacters (bracketed : Bool) (seen : List Char) :
    Nat → Cursor → Except Fault (List Char × Cursor)
  | 0, _ => .error .outOfSteps
  | steps + 1, c =>
    match c.rest with
    | '%' :: _ =>
      match readTagEscape c with
      | .error fault => .error fault
      | .ok (meant, next) => tagCharacters bracketed (meant :: seen) steps next
    | x :: _ =>
      if isTagCharacter bracketed x then tagCharacters bracketed (x :: seen) steps (c.skip 1)
      else .ok (seen.reverse, c)
    | [] => .ok (seen.reverse, c)

/-- Reads the characters of a tag behind `before`, which has been read already. A tag without any
character is an error. -/
def readTagText (bracketed : Bool) (before : List Char) (c : Cursor) :
    Except Fault (String × Cursor) :=
  match tagCharacters bracketed [] (c.rest.length + 1) c with
  | .error fault => .error fault
  | .ok (text, next) =>
    if before.isEmpty && text.isEmpty then .error .badTag
    else .ok (String.ofList (before.drop 1 ++ text), next)

/-- Reads a handle: an exclamation mark, and a name with another one behind it if there is one. -/
def readHandle (c : Cursor) : List Char × Cursor :=
  let (name, next) := (c.skip 1).span isWord
  if next.sees '!' then ('!' :: name ++ ['!'], next.skip 1) else ('!' :: name, next)

/-- Reads a tag from its exclamation mark on. -/
def readTag (inFlow : Bool) (c : Cursor) : Except Fault (Tag × Cursor) := do
  let (tag, next) ←
    if c.at? 1 == some '<' then do
      let (suffix, next) ← readTagText true [] (c.skip 2)
      if next.sees '>' then .ok (⟨"", suffix⟩, next.skip 1) else .error .badTag
    else do
      let (handle, next) := readHandle c
      if handle.length ≥ 2 && handle.getLast? == some '!' then
        let (suffix, next) ← readTagText false [] next
        .ok (⟨String.ofList handle, suffix⟩, next)
      else
        let (suffix, next) ← readTagText false handle next
        .ok (if suffix.isEmpty then ⟨"", "!"⟩ else ⟨"!", suffix⟩, next)
  if next.endsAt 0 || (inFlow && next.sees ',') then .ok (tag, next) else .error .badTag

/-! ## Directives -/

/-- Reads a number of at most nine digits. -/
def readVersionNumber (c : Cursor) : Except Fault (Nat × Cursor) :=
  let (digits, next) := c.span Char.isDigit
  match Text.Numeral.value? 10 digits with
  | some n => if digits.length ≤ 9 then .ok (n, next) else .error .badDirective
  | none => .error .badDirective

/-- Reads the version that a directive names. -/
def readVersion (c : Cursor) : Except Fault (Directive × Cursor) := do
  let (major, next) ← readVersionNumber (c.skipWhile isBlank)
  if next.sees '.' then
    let (minor, next) ← readVersionNumber (next.skip 1)
    .ok (.version major minor, next)
  else .error .badDirective

/-- Reads the handle that a directive names, and what it stands for. -/
def readHandleDirective (c : Cursor) : Except Fault (Directive × Cursor) := do
  let start := c.skipWhile isBlank
  let (handle, next) := readHandle start
  if !start.sees '!' || (handle.length ≥ 2 && handle.getLast? != some '!') || !next.atBlank then
    .error .badDirective
  else
    let (expansion, next) ← readTagText true [] (next.skipWhile isBlank)
    if next.endsAt 0 then .ok (.handle (String.ofList handle) expansion, next)
    else .error .badDirective

/-- Reads a directive from its percent sign to the end of its line. -/
def readDirective (c : Cursor) : Except Fault (Directive × Cursor) := do
  let (name, next) := (c.skip 1).span isWord
  if !next.endsAt 0 then .error .badDirective
  else
    let (directive, next) ←
      if name == ['Y', 'A', 'M', 'L'] then readVersion next
      else if name == ['T', 'A', 'G'] then readHandleDirective next
      else .error .badDirective
    let next := (next.skipWhile isBlank).skipComment
    if next.endsAt 0 && !next.atBlank then .ok (directive, next.skipBreak)
    else .error .badDirective

end Variation.Yaml
