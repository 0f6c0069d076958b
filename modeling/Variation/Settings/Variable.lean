import Variation.Text.Blank
import Variation.Text.Numeral
import Variation.Yaml.Meaning

/-!
# Values of environment variables

A variable holds a text, which is read as something else where it looks like it: as a truth value, a
number, a text in quotes, a list or a table. A text with a comma in it is a list, unless it starts
with a bracket or a quote. What only starts like something else is the text as it stands.
-/

namespace Variation

/-- What a setting is set to, as far as settings tell values apart. -/
inductive RawValue where
  | text (text : String)
  | number (number : Int)
  /-- A truth value, a number that is not whole, a list or a table. -/
  | other
deriving DecidableEq

namespace Variable

/-- Whether a character may stand between values. -/
def isSpace (c : Char) : Bool :=
  c = ' ' || c = '\t' || c = '\n' || c = '\r' || c = '\x0c'

/-- A text from its first character on that is no space. -/
def skipSpace (text : List Char) : List Char :=
  text.dropWhile isSpace

/-- Whether a character ends a value without quotes. -/
def isMark (c : Char) : Bool :=
  [',', '[', ']', '{', '}'].contains c

/-- The character that a letter behind a backslash stands for. -/
def escaped? : Char → Option Char
  | 'b' => some '\x08'
  | 'f' => some '\x0c'
  | 'n' => some '\n'
  | 'r' => some '\r'
  | 't' => some '\t'
  | '"' => some '"'
  | '\\' => some '\\'
  | _ => none

/-- Reads a text in double quotes from behind its opening quote on. -/
def readQuoted? : List Char → Option (List Char × List Char)
  | [] => none
  | '"' :: rest => some ([], rest)
  | '\\' :: c :: rest =>
    match escaped? c, readQuoted? rest with
    | some meant, some (s, rest) => some (meant :: s, rest)
    | _, _ => none
  | c :: rest => (readQuoted? rest).map fun (s, rest) => (c :: s, rest)

/-- What a word without quotes stands for. -/
def wordValue (word : List Char) : RawValue :=
  if word.contains '.' && (Yaml.finite? word).isSome then .other
  else match Text.Numeral.integer? 10 word with
    | some n => if -2 ^ 63 ≤ n ∧ n < 2 ^ 64 then .number n else .text (String.ofList word)
    | none => .text (String.ofList word)

/-- Whether a character may stand in the name of an entry. -/
def isName (c : Char) : Bool := c.isAlphanum || c = '_' || c = '-'

/-- Reads the name of an entry and the sign behind it. -/
def readName? (text : List Char) : Option (List Char) := do
  let text := skipSpace text
  let rest ←
    match text with
    | '"' :: rest => (readQuoted? rest).map (·.2)
    | _ => if text.head?.any isName then some (text.dropWhile isName) else none
  match skipSpace rest with
  | '=' :: rest => some rest
  | _ => none

mutual
/-- Reads a value, and the spaces around it. -/
def readValue? : Nat → List Char → Option (RawValue × List Char)
  | 0, _ => none
  | steps + 1, text =>
    match skipSpace text with
    | 't' :: 'r' :: 'u' :: 'e' :: rest => some (.other, skipSpace rest)
    | 'f' :: 'a' :: 'l' :: 's' :: 'e' :: rest => some (.other, skipSpace rest)
    | '[' :: rest => readItems? false ']' steps rest
    | '{' :: rest => readItems? true '}' steps rest
    | '"' :: rest =>
      (readQuoted? rest).map fun (s, rest) => (.text (String.ofList s), skipSpace rest)
    | '\'' :: c :: '\'' :: rest => some (.text (String.singleton c), skipSpace rest)
    | '\'' :: _ => none
    | text =>
      let word := text.takeWhile fun c => !isMark c
      some (wordValue (Text.trimBlanks word), text.drop word.length)

/-- Reads what stands between brackets, up to the closing one. -/
def readItems? (named : Bool) (closing : Char) : Nat → List Char → Option (RawValue × List Char)
  | 0, _ => none
  | steps + 1, text => do
    match skipSpace text with
    | c :: rest =>
      if c = closing then some (.other, skipSpace rest)
      else
        let text ← if named then readName? (c :: rest) else some (c :: rest)
        let (_, rest) ← readValue? steps text
        match rest with
        | ',' :: rest => readItems? named closing steps rest
        | c :: rest => if c = closing then some (.other, skipSpace rest) else none
        | [] => none
    | [] => none
end

/-- What the text of a variable stands for. -/
def value (text : String) : RawValue :=
  let trimmed := Text.trimmed text
  let characters := trimmed.toList
  let opens := characters.head?.any fun c => ['[', '{', '"', '\''].contains c
  if characters.contains ',' && !opens then .other
  else match readValue? (characters.length + 1) characters with
    | some (value, []) => value
    | _ => .text trimmed

end Variable

end Variation
