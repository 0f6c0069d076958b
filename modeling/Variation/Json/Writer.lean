import Variation.Decimal.Layout
import Variation.Document.Basic
import Variation.Text.Numeral

/-!
# Writing JSON

One writer serves all layouts: a `Style` says what stands in front of an item at a depth and behind
the colon of an entry, and these are blanks in every style, so that the reader passes over them. A
container without items is written as its two brackets in every style.
-/

namespace Variation.Json

/-- The decisions of a layout. -/
structure Style where
  /-- What stands before an item at a depth, and before the bracket that closes that depth. -/
  gap : Nat → List Char
  /-- What stands between the colon and the value of an entry. -/
  afterColon : List Char
  /-- Whether every character outside ASCII is written as an escape. -/
  asciiOnly : Bool

namespace Style

/-- Everything on one line, without blanks. -/
def compact : Style := ⟨fun _ => [], [], false⟩

/-- One item a line, two spaces deeper than the container. -/
def pretty : Style := ⟨fun depth => '\n' :: List.replicate (2 * depth) ' ', [' '], false⟩

/-- Everything on one line, in ASCII. -/
def ascii : Style := ⟨fun _ => [], [], true⟩

end Style

/-- Values with a leading exponent from -5 to 15 have their point in place; other exponents have a
sign. -/
def realLayout : Decimal.Layout := ⟨-5, 16, true⟩

/-- The lower case digit of a value below sixteen. -/
def hexDigit (n : Nat) : Char :=
  Nat.digitChar (n % 16)

/-- The escape of a UTF-16 unit. -/
def unitEscape (n : Nat) : List Char :=
  ['\\', 'u', hexDigit (n / 4096), hexDigit (n / 256), hexDigit (n / 16), hexDigit n]

/-- The escapes of a character: one unit, or two outside the basic plane. -/
def unicodeEscape (c : Char) : List Char :=
  if c.toNat < 0x10000 then unitEscape c.toNat
  else
    let offset := c.toNat - 0x10000
    unitEscape (0xD800 + offset / 0x400) ++ unitEscape (0xDC00 + offset % 0x400)

/-- A character inside a string. -/
def Style.escape (style : Style) (c : Char) : List Char :=
  match c with
  | '"' => ['\\', '"']
  | '\\' => ['\\', '\\']
  | '\x08' => ['\\', 'b']
  | '\x0c' => ['\\', 'f']
  | '\n' => ['\\', 'n']
  | '\r' => ['\\', 'r']
  | '\t' => ['\\', 't']
  | c => if c.toNat < 0x20 || (style.asciiOnly && c.toNat ≥ 0x7F) then unicodeEscape c else [c]

/-- A string with its quotes. -/
def Style.string (style : Style) (s : String) : List Char :=
  '"' :: s.toList.flatMap style.escape ++ ['"']

namespace Style

mutual
/-- The text of a document inside `depth` containers. -/
def write (style : Style) (depth : Nat) : Document → List Char
  | .null => ['n', 'u', 'l', 'l']
  | .boolean true => ['t', 'r', 'u', 'e']
  | .boolean false => ['f', 'a', 'l', 's', 'e']
  | .whole n => Text.Numeral.decimal n.value
  | .real x => realLayout.render x
  | .text s => style.string s
  | .sequence [] => ['[', ']']
  | .sequence (first :: rest) =>
    '[' :: style.gap (depth + 1) ++ style.write (depth + 1) first
      ++ style.writeItems (depth + 1) rest ++ style.gap depth ++ [']']
  | .mapping [] => ['{', '}']
  | .mapping ((key, first) :: rest) =>
    '{' :: style.gap (depth + 1) ++ style.string key ++ ':' :: style.afterColon
      ++ style.write (depth + 1) first
      ++ style.writeEntries (depth + 1) rest ++ style.gap depth ++ ['}']

/-- Further items, each after a comma. -/
def writeItems (style : Style) (depth : Nat) : List Document → List Char
  | [] => []
  | item :: rest =>
    ',' :: style.gap depth ++ style.write depth item ++ style.writeItems depth rest

/-- Further entries, each after a comma. -/
def writeEntries (style : Style) (depth : Nat) : List (String × Document) → List Char
  | [] => []
  | (key, value) :: rest =>
    ',' :: style.gap depth ++ style.string key ++ ':' :: style.afterColon
      ++ style.write depth value ++ style.writeEntries depth rest
end

end Style

/-- The text of a document in a style. -/
def render (style : Style) (document : Document) : String :=
  String.ofList (style.write 0 document)

end Variation.Json
