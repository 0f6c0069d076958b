import Variation.Decimal.Layout
import Variation.Yaml.Character
import Variation.Yaml.Meaning

/-!
# Writing YAML

Documents are written in block style, two columns deeper at each level, and lines are never folded.
A container without items is written as its two brackets.

A text is written without quotes where that reads back as the text, else in single quotes, and in
double quotes where only escapes can tell its characters. A text with a line feed in it is written
as literal lines. A key that takes more than one line, or is too long to be recognised as one when
read, is announced by a question mark.
-/

namespace Variation.Yaml

/-- Values with a leading exponent from -5 to 15 have their point in place; an exponent that is not
negative has no sign. -/
def realLayout : Decimal.Layout := ⟨-5, 16, false⟩

/-- The columns between a level and the next. -/
def step : Nat := 2

/-- The longest key, in bytes, that is written without an announcement. -/
def longestKey : Nat := 128

/-! ## Which style a text takes -/

/-- Whether two neighbouring characters satisfy two conditions. -/
def hasPair (first second : Char → Bool) : List Char → Bool
  | a :: b :: rest => (first a && second b) || hasPair first second (b :: rest)
  | _ => false

/-- Whether a space. -/
def isSpace (c : Char) : Bool := c = ' '

/-- Whether some character has to be escaped, or a space stands before a break, where only escapes
keep it. -/
def needsEscapes (s : List Char) : Bool :=
  s.any (fun c => !isPlain c) || hasPair isSpace isBreak s

/-- Whether a character may not start a text that has no quotes. -/
def isIndicator (c : Char) : Bool :=
  ['#', ',', '[', ']', '{', '}', '&', '*', '!', '|', '>', '\'', '"', '%', '@', '`'].contains c

/-- Whether the text that is left starts with a separator or is at its end. -/
def endsWord : List Char → Bool
  | [] => true
  | c :: _ => isSeparator c || c = '\x00'

/-- Whether a mark stands inside a text, after its first character `before`: a colon before a
separator, or a number sign behind one. -/
def hasInnerMark (before : Char) : List Char → Bool
  | [] => false
  | c :: rest =>
    (c = ':' && endsWord rest) || (c = '#' && endsWord [before]) || hasInnerMark c rest

/-- Whether a text looks like markup: like a mark of a document, like a key, an item or a comment,
or like the start of another kind of node. -/
def looksLikeMarkup : List Char → Bool
  | [] => false
  | '-' :: '-' :: '-' :: _ => true
  | '.' :: '.' :: '.' :: _ => true
  | c :: rest =>
    isIndicator c || ((c = '?' || c = ':' || c = '-') && endsWord rest) || hasInnerMark c rest

/-- Whether a text starts or ends with a character of a class. -/
def hasAtEnds (p : Char → Bool) (s : List Char) : Bool :=
  (s.head?.elim false p) || (s.getLast?.elim false p)

/-- Whether a text can be written without quotes, its meaning apart. -/
def allowsPlain (s : List Char) : Bool :=
  !(hasAtEnds isSpace s || s.any isBreak || needsEscapes s || looksLikeMarkup s)

/-- Whether a text can be written in single quotes: no space follows a break, where it would be
taken for indentation. -/
def allowsSingle (s : List Char) : Bool :=
  !(needsEscapes s || hasPair isBreak isSpace s)

/-- Whether a text can be written as literal lines. -/
def allowsLiteral (s : List Char) : Bool :=
  !(needsEscapes s || (s.getLast?.elim false isSpace))

/-- The styles of a text. -/
inductive Style where
  | plain
  | single
  | double
  | literal
deriving DecidableEq

/-- Whether a text without quotes would be read as something else. -/
def isAmbiguous (s : String) : Bool :=
  match meaning s with
  | .text => isPaddedDigits s.toList
  | _ => true

/-- The style that a text is written in. -/
def styleOf (s : String) : Style :=
  let characters := s.toList
  if characters.contains '\n' then
    if allowsLiteral characters then .literal else .double
  else if !isAmbiguous s && allowsPlain characters then .plain
  else if allowsSingle characters then .single
  else .double

/-! ## Texts -/

/-- So many spaces. -/
def spaces (n : Nat) : List Char :=
  List.replicate n ' '

/-- The upper case hexadecimal digits of a number, `width` of them. -/
def paddedHex (width n : Nat) : List Char :=
  let digits := (Nat.toDigits 16 n).map Char.toUpper
  List.replicate (width - digits.length) '0' ++ digits

/-- A character inside double quotes. -/
def escape (c : Char) : List Char :=
  match c with
  | '\x00' => ['\\', '0']
  | '\x07' => ['\\', 'a']
  | '\x08' => ['\\', 'b']
  | '\t' => ['\\', 't']
  | '\n' => ['\\', 'n']
  | '\x0b' => ['\\', 'v']
  | '\x0c' => ['\\', 'f']
  | '\r' => ['\\', 'r']
  | '\x1b' => ['\\', 'e']
  | '"' => ['\\', '"']
  | '\\' => ['\\', '\\']
  | '\u0085' => ['\\', 'N']
  | '\u2028' => ['\\', 'L']
  | '\u2029' => ['\\', 'P']
  | c =>
    let n := c.toNat
    if isPlain c then [c]
    else if n ≤ 0xFF then '\\' :: 'x' :: paddedHex 2 n
    else if n ≤ 0xFFFF then '\\' :: 'u' :: paddedHex 4 n
    else '\\' :: 'U' :: paddedHex 8 n

/-- A text in double quotes. -/
def inDouble (s : List Char) : List Char :=
  '"' :: s.flatMap escape ++ ['"']

/-- The characters of a text in single quotes: a quote is doubled, and what follows a break is
indented. -/
def singleBody (indent : Nat) : Bool → List Char → List Char
  | afterBreak, [] => if afterBreak then spaces indent else []
  | afterBreak, c :: rest =>
    if isBreak c then c :: singleBody indent true rest
    else
      (if afterBreak then spaces indent else []) ++ (if c = '\'' then ['\'', '\''] else [c])
        ++ singleBody indent false rest

/-- A text in single quotes. -/
def inSingle (indent : Nat) (s : List Char) : List Char :=
  '\'' :: singleBody indent false s ++ ['\'']

/-- What follows the bar of a text in literal lines: the indentation where the text itself starts
with a space or a break, and what becomes of the breaks at its end. -/
def literalHints (s : List Char) : List Char :=
  let indentation :=
    if s.head?.elim false (fun c => isSpace c || isBreak c) then Nat.toDigits 10 step else []
  let chomping := match s.reverse with
    | [] => ['-']
    | last :: before =>
      if !isBreak last then ['-']
      else match before with
        | [] => ['+']
        | c :: _ => if isBreak c then ['+'] else []
  indentation ++ chomping

/-- Literal lines, each that is not empty indented. -/
def literalBody (indent : Nat) : Bool → List Char → List Char
  | _, [] => []
  | afterBreak, c :: rest =>
    if isBreak c then c :: literalBody indent true rest
    else (if afterBreak then spaces indent else []) ++ c :: literalBody indent false rest

/-- A text in literal lines. -/
def inLiteral (indent : Nat) (s : List Char) : List Char :=
  '|' :: literalHints s ++ '\n' :: literalBody indent true s

/-- A text whose further lines, if it has any, are indented. -/
def writeText (indent : Nat) (s : String) : List Char :=
  match styleOf s with
  | .plain => s.toList
  | .single => inSingle indent s.toList
  | .double => inDouble s.toList
  | .literal => inLiteral indent s.toList

/-- What ends the line of a text that was written: a line feed, unless the text ended its line
itself. -/
def lineEnd (written : List Char) : List Char :=
  if written.getLast?.elim false isBreak then [] else ['\n']

/-- A text with the end of its line. -/
def textLine (indent : Nat) (s : String) : List Char :=
  let written := writeText indent s
  written ++ lineEnd written

/-- Whether a key is recognised as one when it is read: it takes one line and is not too long. -/
def isSimpleKey (key : String) : Bool :=
  !(key.toList.any isBreak) && key.utf8ByteSize ≤ longestKey

/-! ## Documents -/

/-- Where a node starts. -/
inductive Place where
  /-- At the column of the node, after an item mark or at the start of a line. -/
  | atColumn
  /-- Behind the colon of a key at the column. -/
  | afterKey

/-- The column of the entries of a mapping: deeper than the key that it follows. -/
def Place.mappingColumn : Place → Nat → Nat
  | .atColumn, column => column
  | .afterKey, column => column + step

/-- What leads to the first item or entry of a container, which stands at a column. -/
def Place.opening : Place → Nat → List Char
  | .atColumn, _ => []
  | .afterKey, column => '\n' :: spaces column

/-- A scalar, or a container without items, that was written on one line. -/
def Place.line : Place → List Char → List Char
  | .atColumn, written => written ++ ['\n']
  | .afterKey, written => ' ' :: written ++ ['\n']

/-- A text. -/
def Place.text : Place → Nat → String → List Char
  | .atColumn, column, s => textLine column s
  | .afterKey, column, s => ' ' :: textLine (column + step) s

/-- A key at a column, up to its colon. -/
def writeKey (column : Nat) (key : String) : List Char :=
  if isSimpleKey key then writeText (column + step) key ++ [':']
  else '?' :: ' ' :: textLine (column + step) key ++ spaces column ++ [':', ' ']

/-- Where the value of a key starts. -/
def valuePlace (key : String) : Place :=
  if isSimpleKey key then .afterKey else .atColumn

/-- The column that the value of a key at a column counts from. -/
def valueColumn (column : Nat) (key : String) : Nat :=
  if isSimpleKey key then column else column + step

mutual
/-- A node, with the ends of its lines. -/
def writeNode (place : Place) (column : Nat) : Document → List Char
  | .null => place.line ['n', 'u', 'l', 'l']
  | .boolean true => place.line ['t', 'r', 'u', 'e']
  | .boolean false => place.line ['f', 'a', 'l', 's', 'e']
  | .whole n => place.line (Text.Numeral.decimal n.value)
  | .real x => place.line (realLayout.render x)
  | .text s => place.text column s
  | .sequence [] => place.line ['[', ']']
  | .sequence (first :: rest) =>
    place.opening column ++ '-' :: ' ' :: writeNode .atColumn (column + step) first
      ++ writeItems column rest
  | .mapping [] => place.line ['{', '}']
  | .mapping ((key, first) :: rest) =>
    let inner := place.mappingColumn column
    place.opening inner ++ writeKey inner key
      ++ writeNode (valuePlace key) (valueColumn inner key) first ++ writeEntries inner rest

/-- Further items at a column. -/
def writeItems (column : Nat) : List Document → List Char
  | [] => []
  | item :: rest =>
    spaces column ++ '-' :: ' ' :: writeNode .atColumn (column + step) item
      ++ writeItems column rest

/-- Further entries at a column. -/
def writeEntries (column : Nat) : List (String × Document) → List Char
  | [] => []
  | (key, value) :: rest =>
    spaces column ++ writeKey column key
      ++ writeNode (valuePlace key) (valueColumn column key) value ++ writeEntries column rest
end

/-- The text of a document. A text that is the whole document has its further lines indented. -/
def render (document : Document) : String :=
  String.ofList
    (match document with
      | .text s => textLine step s
      | other => writeNode .atColumn 0 other)

end Variation.Yaml
