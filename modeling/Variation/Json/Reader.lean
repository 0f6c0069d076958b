import Variation.Json.Number

/-!
# Reading JSON

Every reader takes the text that is left and yields a value with the text that is left after it.
`value` is structural on the number of containers that may still be opened, so that a text nested
too deeply is an error and not a failure of the reader. The two loops over the items of a list and
the entries of an object count their steps; as each step reads at least one character, the length of
the text is enough of them.
-/

namespace Variation.Json

/-- Whether a character may stand between the tokens of a text. -/
def isSpace (c : Char) : Bool :=
  c = ' ' || c = '\n' || c = '\t' || c = '\r'

/-- A text from its first token on. -/
def skipSpace (text : List Char) : List Char :=
  text.dropWhile isSpace

/-- The value of four hexadecimal digits. -/
def fourDigits? (digits : List Char) : Option Nat :=
  if digits.length = 4 then Text.Numeral.value? 16 digits else none

/-- Reads four hexadecimal digits. Four bytes are taken before they are looked at. -/
def unicodeUnit (text : List Char) : Reading Nat :=
  if byteCount text < 4 then .error (.before .endInString [])
  else match fourDigits? (text.take 4) with
    | some unit => .ok (unit, text.drop 4)
    | none => .error ⟨.invalidEscape, byteCount text - 4⟩

/-- Reads the second half of a character outside the basic plane, `high` being the first half. -/
def secondHalf (high : Nat) (text : List Char) : Reading Char :=
  match text with
  | [] => .error (.before .endInString [])
  | '\\' :: [] => .error (.before .endInString [])
  | '\\' :: 'u' :: rest =>
    match unicodeUnit rest with
    | .error stop => .error stop
    | .ok (low, rest) =>
      if 0xDC00 ≤ low ∧ low ≤ 0xDFFF then
        .ok (Char.ofNat (0x10000 + (high - 0xD800) * 0x400 + (low - 0xDC00)), rest)
      else .error (.before .loneSurrogate rest)
  | '\\' :: rest => .error (.within .brokenSurrogatePair rest)
  | rest => .error (.within .brokenSurrogatePair rest)

/-- Reads the character that an escape stands for, from the letter after the backslash on. -/
def escaped (text : List Char) : Reading Char :=
  match text with
  | [] => .error (.before .endInString [])
  | '"' :: rest => .ok ('"', rest)
  | '\\' :: rest => .ok ('\\', rest)
  | '/' :: rest => .ok ('/', rest)
  | 'b' :: rest => .ok ('\x08', rest)
  | 'f' :: rest => .ok ('\x0c', rest)
  | 'n' :: rest => .ok ('\n', rest)
  | 'r' :: rest => .ok ('\r', rest)
  | 't' :: rest => .ok ('\t', rest)
  | 'u' :: rest =>
    match unicodeUnit rest with
    | .error stop => .error stop
    | .ok (unit, rest) =>
      if 0xDC00 ≤ unit ∧ unit ≤ 0xDFFF then .error (.before .loneSurrogate rest)
      else if 0xD800 ≤ unit ∧ unit ≤ 0xDBFF then secondHalf unit rest
      else .ok (Char.ofNat unit, rest)
  | rest => .error (.within .invalidEscape rest)

/-- Reads a string from behind its opening quote to behind its closing one; `seen` holds the
characters read so far, last first. -/
def stringBody (seen : List Char) : Nat → List Char → Reading String
  | 0, text => .error (.before .outOfSteps text)
  | _, [] => .error (.before .endInString [])
  | steps + 1, c :: rest =>
    if c = '"' then .ok (String.ofList seen.reverse, rest)
    else if c = '\\' then
      match escaped rest with
      | .error stop => .error stop
      | .ok (meant, rest) => stringBody (meant :: seen) steps rest
    else if c.toNat < 0x20 then .error (.within .controlCharacter (c :: rest))
    else stringBody (c :: seen) steps rest

/-- Reads a string from behind its opening quote. -/
def stringAfterQuote (text : List Char) : Reading String :=
  stringBody [] (text.length + 1) text

/-- Reads the rest of a word, of which the first letter was read. -/
def literal (meaning : Document) : List Char → List Char → Reading Document
  | [], text => .ok (meaning, text)
  | _ :: _, [] => .error (.before .endInValue [])
  | letter :: more, c :: rest =>
    if c = letter then literal meaning more rest else .error (.within .expectedLiteral (c :: rest))

/-- Reads the items of a list after its first one, up to the closing bracket; `seen` holds the items
read so far, last first. -/
def itemsAfter (item : List Char → Reading Document) (seen : List Document) :
    Nat → List Char → Reading Document
  | 0, text => .error (.before .outOfSteps text)
  | steps + 1, text =>
    match skipSpace text with
    | [] => .error (.within .endInList [])
    | ']' :: rest => .ok (.sequence seen.reverse, rest)
    | ',' :: rest =>
      match skipSpace rest with
      | [] => .error (.within .endInValue [])
      | ']' :: rest => .error (.within .trailingComma (']' :: rest))
      | rest =>
        match item rest with
        | .error stop => .error stop
        | .ok (document, rest) => itemsAfter item (document :: seen) steps rest
    | rest => .error (.within .expectedListMark rest)

/-- Reads a list from behind its opening bracket. -/
def list (item : List Char → Reading Document) (text : List Char) : Reading Document :=
  match skipSpace text with
  | [] => .error (.within .endInList [])
  | ']' :: rest => .ok (.sequence [], rest)
  | rest =>
    match item rest with
    | .error stop => .error stop
    | .ok (document, after) => itemsAfter item [document] (rest.length + 1) after

/-- Reads one entry of an object, from its key on. -/
def entry (item : List Char → Reading Document) (text : List Char) :
    Reading (String × Document) :=
  match text with
  | [] => .error (.within .endInValue [])
  | '"' :: rest =>
    match stringAfterQuote rest with
    | .error stop => .error stop
    | .ok (key, rest) =>
      match skipSpace rest with
      | [] => .error (.within .endInObject [])
      | ':' :: rest =>
        match item (skipSpace rest) with
        | .error stop => .error stop
        | .ok (document, rest) => .ok ((key, document), rest)
      | rest => .error (.within .expectedColon rest)
  | rest => .error (.within .keyNotString rest)

/-- Reads the entries of an object after its first one, up to the closing brace. A key that stands
twice keeps its last value. -/
def entriesAfter (item : List Char → Reading Document) (seen : Entries Document) :
    Nat → List Char → Reading Document
  | 0, text => .error (.before .outOfSteps text)
  | steps + 1, text =>
    match skipSpace text with
    | [] => .error (.within .endInObject [])
    | '}' :: rest => .ok (.mapping seen, rest)
    | ',' :: rest =>
      match skipSpace rest with
      | '}' :: rest => .error (.within .trailingComma ('}' :: rest))
      | rest =>
        match entry item rest with
        | .error stop => .error stop
        | .ok ((key, document), rest) => entriesAfter item (seen.insert key document) steps rest
    | rest => .error (.within .expectedObjectMark rest)

/-- Reads an object from behind its opening brace. -/
def object (item : List Char → Reading Document) (text : List Char) : Reading Document :=
  match skipSpace text with
  | [] => .error (.within .endInObject [])
  | '}' :: rest => .ok (.mapping [], rest)
  | rest =>
    match entry item rest with
    | .error stop => .error stop
    | .ok ((key, document), after) =>
      entriesAfter item [(key, document)] (rest.length + 1) after

/-- Reads a value from its first token on; at most `depth` containers may be open at a time. -/
def value : Nat → List Char → Reading Document
  | depth, text =>
    match text with
    | [] => .error (.within .endInValue [])
    | 'n' :: rest => literal .null ['u', 'l', 'l'] rest
    | 't' :: rest => literal (.boolean true) ['r', 'u', 'e'] rest
    | 'f' :: rest => literal (.boolean false) ['a', 'l', 's', 'e'] rest
    | '"' :: rest =>
      match stringAfterQuote rest with
      | .error stop => .error stop
      | .ok (s, rest) => .ok (.text s, rest)
    | '[' :: rest =>
      match depth with
      | 0 => .error (.within .tooDeep text)
      | depth + 1 => list (value depth) rest
    | '{' :: rest =>
      match depth with
      | 0 => .error (.within .tooDeep text)
      | depth + 1 => object (value depth) rest
    | c :: _ =>
      if c = '-' || isDigit c then number text else .error (.within .expectedValue text)

/-- The document that a whole text stands for, of which at most `depth` containers are open at a
time. -/
def parseWithin (depth : Nat) (text : String) : Except JsonError Document :=
  let characters := text.toList
  match value depth (skipSpace characters) with
  | .error stop => .error (stop.located characters)
  | .ok (document, rest) =>
    match skipSpace rest with
    | [] => .ok document
    | rest => .error ((Stop.within .trailingCharacters rest).located characters)

/-- How many containers of a file may be open at a time. -/
def fileDepth : Nat := 127

/-- The document that the text of a file stands for. -/
def parse (text : String) : Except JsonError Document :=
  parseWithin fileDepth text

end Variation.Json
